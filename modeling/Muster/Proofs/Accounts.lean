import Muster.Proofs.Readers

/-!
# Streams of the store against its history

The commands to the channels of a store, in any order, and the history that they leave. Each channel
of the store has lived what the history tells of its key (`Recorded`), so each open stream accounts
for everything that was sent since it was opened: it has delivered it, was told that it lost it, or
has yet to read it.
-/
namespace Muster

namespace Memory

open Channel

/-- What is asked of the channels of a store. -/
inductive Command where
  | publish (key message : String)
  | disconnect (key : String)
  | subscribe (key : String)
  | next (key : String) (stream : Nat)
  | close (key : String) (stream : Nat)
  | setUnavailable (value : Bool)
deriving DecidableEq, Repr

/-- What a command does, and the entry that it leaves in the history of a channel. A command that
fails leaves none. -/
def obey (m : Memory) : Command → Option (String × Entry) × Memory
  | .publish key message =>
    match m.publish key message with
    | .ok (_, m') => (some (key, .sent (.payload message)), m')
    | .error _ => (none, m)
  | .disconnect key => (some (key, .sent .disconnect), (m.disconnect key).2)
  | .subscribe key =>
    match m.subscribe key with
    | .ok (s, m') => (some (key, .joined s), m')
    | .error _ => (none, m)
  | .next key s => (some (key, .yielded s (m.next key s).1), (m.next key s).2)
  | .close key s => (some (key, .left s), m.close key s)
  | .setUnavailable value => (none, m.setUnavailable value)

/-- What commands do, one after another, and the history that they leave. -/
def play (m : Memory) : List Command → List (String × Entry) × Memory
  | [] => ([], m)
  | c :: cs =>
    let (e, m) := m.obey c
    let (h, m) := m.play cs
    (e.toList ++ h, m)

theorem play_append (m : Memory) (cs cs' : List Command) : m.play (cs ++ cs') =
    ((m.play cs).1 ++ ((m.play cs).2.play cs').1, ((m.play cs).2.play cs').2) := by
  induction cs generalizing m with
  | nil => rfl
  | cons c cs ih => simp [play, ih]

/-- The history of one channel. -/
def onKey (key : String) (h : List (String × Entry)) : List Entry :=
  h.filterMap fun p => if p.1 = key then some p.2 else none

@[simp] theorem onKey_append (key : String) (h h' : List (String × Entry)) :
    onKey key (h ++ h') = onKey key h ++ onKey key h' := List.filterMap_append

@[simp] theorem onKey_self (key : String) (e : Entry) : onKey key [(key, e)] = [e] := by
  simp [onKey]

theorem onKey_other {key key' : String} (h : key ≠ key') (e : Entry) :
    onKey key' [(key, e)] = [] := by
  simp [onKey, h]

/-- The channel of a key; without streams and items if there is none yet. -/
def channel (m : Memory) (key : String) : Channel :=
  (m.channels.get? key).getD { capacity := m.capacity }

theorem log_channel (m : Memory) (key : String) : (m.channel key).log = m.log key := by
  unfold channel log
  cases m.channels.get? key <;> rfl

theorem position?_channel (m : Memory) (key : String) (s : Nat) :
    (m.channel key).position? s = m.position? key s := by
  unfold channel position?
  cases m.channels.get? key <;> rfl

theorem subscribers_channel (m : Memory) (key : String) :
    m.subscribers key = (m.channel key).streams.length := by
  unfold channel subscribers
  cases m.channels.get? key <;> rfl

theorem next_channel (m : Memory) (key : String) (s : Nat) :
    (m.next key s).1 = ((m.channel key).next s).1 ∧
      (m.next key s).2.channel key = ((m.channel key).next s).2 := by
  cases hc : m.channels.get? key <;> simp [channel, next, hc, Channel.next]

/-- A reading changes one channel only. -/
theorem next_beside (m : Memory) (key : String) (s : Nat) :
    (m.next key s).2.capacity = m.capacity ∧ (m.next key s).2.opened = m.opened ∧
      ∀ key', key ≠ key' → (m.next key s).2.channel key' = m.channel key' := by
  cases hc : m.channels.get? key with
  | none => simp [next, hc]
  | some c =>
    refine ⟨by simp [next, hc], by simp [next, hc], fun key' hk => ?_⟩
    simp [channel, next, hc, hk]

/-- A channel with streams gets what is sent. -/
theorem send_channel (m : Memory) (key : String) (i : Item) :
    (m.send key i).channel key = (m.channel key).send i ∨
      (m.channel key).streams = [] ∧ (m.send key i).channel key = m.channel key := by
  cases hc : m.channels.get? key <;> simp [channel, send, hc]

theorem close_channel (m : Memory) (key : String) (s : Nat) :
    (m.close key s).channel key = (m.channel key).leave s := by
  cases hc : m.channels.get? key <;> simp [channel, close, hc, Channel.leave]

/-! ## The history of the store -/

/-- Each channel has lived what the history tells of it. -/
structure Recorded (kept : Nat) (h : List (String × Entry)) (m : Memory) : Prop where
  capacity : m.capacity = kept
  lives : ∀ key, Lives kept (onKey key h) (m.channel key)
  /-- No stream was opened with the number of the next one. -/
  opened : ∀ p ∈ h, ∀ s, p.2 = .joined s → s < m.opened

namespace Recorded

variable {kept : Nat} {h : List (String × Entry)} {m m' : Memory}

theorem new (capacity : Nat) : Recorded (Memory.new capacity).capacity [] (Memory.new capacity) :=
  ⟨rfl, fun _ => .new, by simp⟩

/-- What happens to one channel leaves all others as they are. -/
theorem entry (hr : Recorded kept h m) {key : String} {e : Entry}
    (hcap : m'.capacity = m.capacity) (hopened : m.opened ≤ m'.opened)
    (hothers : ∀ key', key ≠ key' → m'.channel key' = m.channel key')
    (hlives : Lives kept (onKey key h ++ [e]) (m'.channel key))
    (hnew : ∀ s, e = .joined s → s < m'.opened) : Recorded kept (h ++ [(key, e)]) m' := by
  refine ⟨hcap.trans hr.capacity, fun key' => ?_, fun p hp s hs => ?_⟩
  · rw [onKey_append]
    by_cases hk : key = key'
    · subst hk
      rwa [onKey_self]
    · rw [onKey_other hk, List.append_nil, hothers key' hk]
      exact hr.lives key'
  · rcases List.mem_append.1 hp with hp | hp
    · exact Nat.lt_of_lt_of_le (hr.opened p hp s hs) hopened
    · cases List.mem_singleton.1 hp
      exact hnew s hs

theorem joined_new (hr : Recorded kept h m) (key : String) :
    .joined m.opened ∉ onKey key h := by
  intro hmem
  obtain ⟨p, hp, he⟩ := List.mem_filterMap.1 hmem
  split at he
  · exact Nat.lt_irrefl _ (hr.opened p hp m.opened (Option.some.inj he))
  · cases he

theorem send (hr : Recorded kept h m) (key : String) (i : Item) :
    Recorded kept (h ++ [(key, .sent i)]) (m.send key i) := by
  refine hr.entry rfl (Nat.le_refl _) (fun key' hk => ?_) ?_ (by simp)
  · simp [channel, Memory.send, hk]
  · rcases send_channel m key i with hsend | ⟨hnone, hsame⟩
    · exact hsend ▸ (hr.lives key).sent i
    · exact hsame ▸ (hr.lives key).unheard i hnone

theorem next (hr : Recorded kept h m) (key : String) (s : Nat) :
    Recorded kept (h ++ [(key, .yielded s (m.next key s).1)]) (m.next key s).2 := by
  obtain ⟨hreading, hchannel⟩ := next_channel m key s
  have hlives : Lives kept (onKey key h ++ [.yielded s (m.next key s).1])
      ((m.next key s).2.channel key) := by
    rw [hreading, hchannel]
    exact (hr.lives key).yielded rfl
  obtain ⟨hcap, hopened, hothers⟩ := next_beside m key s
  exact hr.entry hcap (Nat.le_of_eq hopened.symm) hothers hlives (by simp)

theorem subscribe (hr : Recorded kept h m) {key : String} {s : Nat}
    (hs : m.subscribe key = .ok (s, m')) : Recorded kept (h ++ [(key, .joined s)]) m' := by
  cases attempt_ok hs
  refine hr.entry rfl (Nat.le_succ _) (fun key' hk => ?_) ?_ (fun s hs => ?_)
  · simp [channel, hk]
  · have hlives := (hr.lives key).joined (hr.joined_new key)
    simpa [channel] using hlives
  · cases hs
    exact Nat.lt_succ_self _

theorem close (hr : Recorded kept h m) (key : String) (s : Nat) :
    Recorded kept (h ++ [(key, .left s)]) (m.close key s) := by
  refine hr.entry rfl (Nat.le_refl _) (fun key' hk => ?_) ?_ (by simp)
  · simp [channel, Memory.close, hk]
  · exact close_channel m key s ▸ (hr.lives key).left s

theorem setUnavailable (hr : Recorded kept h m) (value : Bool) :
    Recorded kept h (m.setUnavailable value) := ⟨hr.capacity, hr.lives, hr.opened⟩

theorem obey (hr : Recorded kept h m) (c : Command) :
    Recorded kept (h ++ (m.obey c).1.toList) (m.obey c).2 := by
  cases c with
  | publish key message =>
    cases hp : m.publish key message with
    | error f => simpa [Memory.obey, hp] using hr
    | ok r =>
      cases attempt_ok hp
      simpa [Memory.obey, hp] using hr.send key (.payload message)
  | disconnect key => exact hr.send key .disconnect
  | subscribe key =>
    cases hs : m.subscribe key with
    | error f => simpa [Memory.obey, hs] using hr
    | ok r => simpa [Memory.obey, hs] using hr.subscribe hs
  | next key s => exact hr.next key s
  | close key s => exact hr.close key s
  | setUnavailable value => simpa [Memory.obey] using hr.setUnavailable value

theorem play (hr : Recorded kept h m) (cs : List Command) :
    Recorded kept (h ++ (m.play cs).1) (m.play cs).2 := by
  induction cs generalizing h m with
  | nil => simpa [Memory.play] using hr
  | cons c cs ih => simpa [Memory.play] using ih (hr.obey c)

end Recorded

/-! ## Open streams -/

/-- What an open stream has done and does next, by what the history of its channel tells of it. -/
structure Accounted (m : Memory) (kept : Nat) (key : String) (h : List Entry) (s : Nat)
    (t : Track) : Prop where
  /-- The items are those that were sent since the stream was opened. -/
  since : ∃ before after, h = before ++ .joined s :: after ∧
    t.items = after.filterMap Entry.item? ∧ t.readings = after.filterMap (Entry.reading? s)
  /-- They are the last ones of the channel. -/
  items : t.items.IsSuffix (m.log key)
  /-- Each one was delivered or skipped, and each lag told how many were skipped. -/
  yields : Yields kept t.items t.readings
  ordered : t.delivered.Sublist (t.items.filterMap Item.text?)
  complete : t.skipped = 0 → t.delivered.map Item.payload = t.items.take t.delivered.length
  position : m.position? key s =
    some ((m.log key).length - t.items.length + (t.delivered.length + t.skipped))
  within : t.delivered.length + t.skipped ≤ t.items.length
  /-- The stream lags if it has more to read than is kept, by as many. -/
  next : (m.next key s).1 = t.upcoming kept
  /-- A lag comes once. -/
  resumes : kept < t.unread →
    ((m.next key s).2.next key s).1 = .ofItem? t.items[t.items.length - kept]?

theorem Recorded.accounted {kept : Nat} {h : List (String × Entry)} {m : Memory}
    (hr : Recorded kept h m) {key : String} {s : Nat} {t : Track}
    (ht : track? s (onKey key h) = some t) : Accounted m kept key (onKey key h) s t := by
  have hagrees := (hr.lives key).agrees
  have hacc := hagrees.opened s t ht
  obtain ⟨hreading, hchannel⟩ := next_channel m key s
  obtain ⟨hnext, hrest⟩ := hacc.next
  rw [hagrees.capacity] at hnext
  refine ⟨track?_since ht, ?_, ?_, hacc.yields.sublist, hacc.yields.complete, ?_, hacc.passed_le,
    ?_, fun hlag => ?_⟩
  · exact log_channel m key ▸ hacc.items
  · exact hagrees.capacity ▸ hacc.yields
  · rw [← position?_channel, ← log_channel]
    exact hacc.position
  · rw [hreading, hnext]
  · have hlagged : ((m.channel key).next s).1 = .lagged (t.unread - kept) := by
      rw [hnext, Track.upcoming, if_pos hlag]
    have hcap : ((m.channel key).next s).2.capacity = kept :=
      (next_streams (c := m.channel key) (s := s) rfl).1.trans hagrees.capacity
    have hgone := (hrest (by simp [hlagged])).next.1
    rw [hcap, hlagged, Track.upcoming_read_lagged hlag] at hgone
    rw [(next_channel _ key s).1, hchannel, hgone]

/-- After any commands, each open stream of a channel accounts for everything that was sent since it
was opened, streams that are not open yield nothing, and whoever publishes is told how many are
open. -/
theorem streams_accounted {capacity : Nat} {cs : List Command} {h : List (String × Entry)}
    {m : Memory} (hplay : (new capacity).play cs = (h, m)) (key : String) :
    let kept := (max capacity 1).nextPowerOfTwo
    let streams := openStreams (onKey key h)
    streams.Nodup ∧
    (∀ s ∈ streams, ∃ t, track? s (onKey key h) = some t ∧
      Accounted m kept key (onKey key h) s t) ∧
    (∀ s, s ∉ streams → (m.next key s).1 = .ended) ∧
    (m.outage = none → ∀ message, ∃ m', m.publish key message = .ok (streams.length, m')) := by
  have hr := (Recorded.new capacity).play cs
  rw [List.nil_append, hplay] at hr
  have hagrees := (hr.lives key).agrees
  refine ⟨hagrees.nodup, fun s hs => ?_, fun s hs => ?_, fun hnone message => ?_⟩
  · obtain ⟨t, ht⟩ := Option.isSome_iff_exists.1 (mem_openStreams.1 hs)
    exact ⟨t, ht, hr.accounted ht⟩
  · have hclosed : track? s (onKey key h) = none := by simpa [mem_openStreams] using hs
    rw [(next_channel m key s).1, Channel.next, hagrees.closed hclosed]
  · have hcount : m.subscribers key = (openStreams (onKey key h)).length := by
      rw [subscribers_channel, ← hagrees.streams, List.length_map]
    refine ⟨m.send key (.payload message), ?_⟩
    simp only [publish, attempt, hnone, hcount]

/-- Of four items that are kept, the first stream has lost a marker and a message, and the second
one nothing. -/
theorem streams_accounted_behind :
    let played := (new 3).play [.subscribe "ch", .publish "ch" "a", .next "ch" 0, .disconnect "ch",
      .publish "ch" "b", .subscribe "ch", .publish "ch" "c", .publish "ch" "d", .publish "ch" "e",
      .publish "ch" "f"]
    let h := onKey "ch" played.1
    (∃ t, track? 0 h = some t ∧ t.unread = 6 ∧ Accounted played.2 4 "ch" h 0 t) ∧
    (∃ t, track? 1 h = some t ∧ t.unread = 4 ∧ Accounted played.2 4 "ch" h 1 t) ∧
    (played.2.next "ch" 0).1 = .lagged 2 ∧ (played.2.next "ch" 1).1 = .message "c" ∧
    (played.2.next "ch" 2).1 = .ended ∧ ∃ m', played.2.publish "ch" "g" = .ok (2, m') := by
  intro played h
  have hkept : (max 3 1).nextPowerOfTwo = 4 := by decide +kernel
  have hunread : ((track? 0 h).map Track.unread, (track? 1 h).map Track.unread) =
      (some 6, some 4) := by decide +kernel
  have hnone : played.2.outage = none := by decide +kernel
  obtain ⟨-, hopen, hclosed, hpublish⟩ :=
    streams_accounted (h := played.1) (m := played.2) rfl "ch"
  have hcount : (openStreams h).length = 2 := by decide +kernel
  rw [hkept] at hopen
  rw [hcount] at hpublish
  obtain ⟨t₀, ht₀, h₀⟩ := hopen 0 (by decide +kernel)
  obtain ⟨t₁, ht₁, h₁⟩ := hopen 1 (by decide +kernel)
  rw [ht₀, ht₁] at hunread
  obtain ⟨hunread₀, hunread₁⟩ : t₀.unread = 6 ∧ t₁.unread = 4 := by simpa using hunread
  refine ⟨⟨t₀, ht₀, hunread₀, h₀⟩, ⟨t₁, ht₁, hunread₁, h₁⟩, ?_, by decide +kernel, ?_, ?_⟩
  · rw [h₀.next, Track.upcoming, hunread₀]
    rfl
  · exact hclosed 2 (by decide +kernel)
  · exact hpublish hnone "g"

end Memory

end Muster
