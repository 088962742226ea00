import Muster.Store.Memory

/-!
# Streams of the store

Where a stream stands in its channel, and what each command does to it. Only the one who reads or
closes a stream moves it; all others leave it where it is (`Memory.Calm`), and a channel's log only
grows.
-/
namespace Muster

namespace Channel

variable {c : Channel} {s s' : Nat}

@[simp] theorem position?_send (c : Channel) (i : Item) (s : Nat) :
    (c.send i).position? s = c.position? s := rfl

@[simp] theorem position?_new (capacity s : Nat) :
    ({ capacity } : Channel).position? s = none := rfl

theorem position?_join (c : Channel) (s s' : Nat) : (c.join s).position? s' =
    (c.position? s').or (if s = s' then some c.log.length else none) := by
  simp only [position?, join, List.find?_append]
  cases c.streams.find? fun p => p.1 = s' with
  | some p => simp
  | none => by_cases h : s = s' <;> simp [h]

theorem position?_leave (h : s ≠ s') : (c.leave s).position? s' = c.position? s' := by
  simp only [position?, leave, List.find?_filter]
  congr 2
  funext p
  by_cases hp : p.1 = s'
  · have hps : p.1 ≠ s := fun e => h (e.symm.trans hp)
    simp [hp, h.symm]
  · simp [hp]

theorem position?_leave_self (c : Channel) (s : Nat) : (c.leave s).position? s = none := by
  simp [position?, leave, List.find?_eq_none]

theorem position?_moveTo (c : Channel) (s n s' : Nat) : (c.moveTo s n).position? s' =
    (c.position? s').map fun k => if s = s' then n else k := by
  have hsame : ((fun p : Nat × Nat => decide (p.1 = s')) ∘
      fun p => if p.1 = s then (p.1, n) else p) = fun p => decide (p.1 = s') := by
    funext p
    by_cases hp : p.1 = s <;> simp [hp]
  simp only [position?, moveTo, List.find?_map, hsame, Option.map_map]
  cases hf : c.streams.find? fun p => p.1 = s' with
  | none => rfl
  | some p =>
    have hp : p.1 = s' := by simpa using List.find?_some hf
    by_cases hs : s = s'
    · subst hs; simp [hp]
    · have hps : s' ≠ s := fun e => hs e.symm
      simp [hp, hs, hps]

theorem next_others {c' : Channel} {r : Reading} (h : c.next s = (r, c')) :
    c'.log = c.log ∧ ∀ s', s ≠ s' → c'.position? s' = c.position? s' := by
  have moved : ∀ n, (c.moveTo s n).log = c.log ∧
      ∀ s', s ≠ s' → (c.moveTo s n).position? s' = c.position? s' := fun n =>
    ⟨rfl, fun s' hs => by simp [position?_moveTo, hs]⟩
  unfold next at h
  split at h
  · cases h; exact ⟨rfl, fun _ _ => rfl⟩
  · split at h
    · cases h; exact moved _
    · split at h
      · cases h; exact ⟨rfl, fun _ _ => rfl⟩
      · cases h; exact moved _
      · cases h; exact ⟨rfl, fun s' hs => position?_leave hs⟩

/-- A stream that is open after a reading was open before. -/
theorem position?_of_next {c c' : Channel} {s s' : Nat} {r : Reading} (h : c.next s = (r, c'))
    (ho : c'.position? s' ≠ none) : c.position? s' ≠ none := by
  by_cases hs : s = s'
  · subst hs
    intro hnone
    simp only [next, hnone] at h
    cases h
    exact ho hnone
  · rwa [(next_others h).2 s' hs] at ho

/-- A message that a stream yields is the item where it stood, and the stream moves on by one. -/
theorem next_message {c' : Channel} {text : String} {n : Nat}
    (h : c.next s = (.message text, c')) (hn : c.position? s = some n) :
    c.log[n]? = some (.payload text) ∧ c'.position? s = some (n + 1) := by
  simp only [next, hn] at h
  split at h
  · cases h
  · split at h
    · cases h
    · next hitem =>
      cases h
      exact ⟨hitem, by simp [position?_moveTo, hn]⟩
    · cases h

end Channel

namespace Memory

/-- The index of the item that a stream reads next. -/
def position? (m : Memory) (key : String) (s : Nat) : Option Nat :=
  (m.channels.get? key).bind fun c => c.position? s

/-- What commands do that open, read or close no stream: all streams stay where they are. -/
structure Calm (m m' : Memory) : Prop where
  position : ∀ key s, m'.position? key s = m.position? key s
  log : ∀ key, m.log key <+: m'.log key
  opened : m'.opened = m.opened

namespace Calm

theorem refl (m : Memory) : Calm m m := ⟨fun _ _ => rfl, fun _ => List.prefix_rfl, rfl⟩

theorem trans {a b c : Memory} (h : Calm a b) (h' : Calm b c) : Calm a c :=
  ⟨fun key s => (h'.position key s).trans (h.position key s),
    fun key => (h.log key).trans (h'.log key), h'.opened.trans h.opened⟩

theorem quiet {m m' : Memory} (hc : m'.channels = m.channels) (ho : m'.opened = m.opened) :
    Calm m m' :=
  ⟨fun key s => by simp [position?, hc], fun key => by simp [Memory.log, hc], ho⟩

theorem send (m : Memory) (key : String) (i : Item) : Calm m (m.send key i) := by
  refine ⟨fun key' s => ?_, fun key' => ?_, rfl⟩
  · by_cases hk : key = key'
    · subst hk
      cases h : m.channels.get? key <;> simp [position?, Memory.send, h]
    · simp [position?, Memory.send, hk]
  · by_cases hk : key = key'
    · subst hk
      cases h : m.channels.get? key <;> simp [Memory.log, Memory.send, h, Channel.send]
    · simp [Memory.log, Memory.send, hk]

end Calm

theorem attempt_ok {α : Type} {m : Memory} {a b : α} (h : m.attempt a = .ok b) : a = b := by
  unfold attempt at h
  split at h
  · cases h
  · exact Except.ok.inj h

theorem setField_calm {m m' : Memory} {key field value : String}
    (h : m.setField key field value = .ok m') : Calm m m' :=
  attempt_ok h ▸ .quiet rfl rfl

theorem deleteField_calm {m m' : Memory} {key field : String} {had : Bool}
    (h : m.deleteField key field = .ok (had, m')) : Calm m m' := by
  cases attempt_ok h
  exact .quiet rfl rfl

theorem publish_calm {m m' : Memory} {key message : String} {n : Nat}
    (h : m.publish key message = .ok (n, m')) : Calm m m' := by
  cases attempt_ok h
  exact .send m key (.payload message)

theorem disconnect_calm (m : Memory) (key : String) : Calm m (m.disconnect key).2 :=
  .send m key .disconnect

theorem setUnavailable_calm (m : Memory) (value : Bool) : Calm m (m.setUnavailable value) :=
  .quiet rfl rfl

/-! ## Commands of the one who reads -/

/-- What the reader of one stream does: all other streams stay where they are. -/
structure Spares (s : Nat) (m m' : Memory) : Prop where
  position : ∀ key s', s ≠ s' → m'.position? key s' = m.position? key s'
  log : ∀ key, m'.log key = m.log key
  opened : m.opened ≤ m'.opened

namespace Spares

theorem refl (s : Nat) (m : Memory) : Spares s m m := ⟨fun _ _ _ => rfl, fun _ => rfl, Nat.le_refl _⟩

theorem trans {s : Nat} {a b c : Memory} (h : Spares s a b) (h' : Spares s b c) : Spares s a c :=
  ⟨fun key s' hs => (h'.position key s' hs).trans (h.position key s' hs),
    fun key => (h'.log key).trans (h.log key), Nat.le_trans h.opened h'.opened⟩

end Spares

theorem subscribe_spares {m m' : Memory} {key : String} {s : Nat}
    (h : m.subscribe key = .ok (s, m')) :
    s = m.opened ∧ m'.opened = m.opened + 1 ∧ Spares s m m' ∧
      (m.position? key s = none → m'.position? key s = some (m.log key).length) := by
  cases attempt_ok h
  refine ⟨rfl, rfl, ⟨fun key' s' hs => ?_, fun key' => ?_, Nat.le_succ _⟩, fun hnew => ?_⟩
  · by_cases hk : key = key'
    · subst hk
      cases hc : m.channels.get? key <;>
        simp [position?, hc, Channel.position?_join, hs]
    · simp [position?, hk]
  · by_cases hk : key = key'
    · subst hk
      cases hc : m.channels.get? key <;> simp [Memory.log, hc, Channel.join]
    · simp [Memory.log, hk]
  · cases hc : m.channels.get? key with
    | none => simp [position?, hc, Memory.log, Channel.position?_join]
    | some c =>
      have hnone : c.position? m.opened = none := by simpa [position?, hc] using hnew
      simp [position?, hc, Memory.log, Channel.position?_join, hnone]

theorem close_spares (m : Memory) (key : String) (s : Nat) : Spares s m (m.close key s) := by
  refine ⟨fun key' s' hs => ?_, fun key' => ?_, Nat.le_refl _⟩
  · by_cases hk : key = key'
    · subst hk
      cases hc : m.channels.get? key <;>
        simp [position?, Memory.close, hc, Channel.position?_leave hs]
    · simp [position?, Memory.close, hk]
  · by_cases hk : key = key'
    · subst hk
      cases hc : m.channels.get? key <;> simp [Memory.log, Memory.close, hc, Channel.leave]
    · simp [Memory.log, Memory.close, hk]

theorem next_spares {m m' : Memory} {key : String} {s : Nat} {r : Reading}
    (h : m.next key s = (r, m')) : Spares s m m' := by
  unfold Memory.next at h
  split at h
  · cases h
    exact .refl s m
  · next c hc =>
    cases h
    obtain ⟨hlog, hothers⟩ := Channel.next_others (c := c) (s := s) rfl
    refine ⟨fun key' s' hs => ?_, fun key' => ?_, Nat.le_refl _⟩
    · by_cases hk : key = key'
      · subst hk
        simp [position?, hc, hothers s' hs]
      · simp [position?, hk]
    · by_cases hk : key = key'
      · subst hk
        simp [Memory.log, hc, hlog]
      · simp [Memory.log, hk]

theorem next_message {m m' : Memory} {key : String} {s n : Nat} {text : String}
    (h : m.next key s = (.message text, m')) (hn : m.position? key s = some n) :
    (m.log key)[n]? = some (.payload text) ∧ m'.position? key s = some (n + 1) := by
  unfold Memory.next at h
  split at h
  · cases h
  · next c hc =>
    have hn : c.position? s = some n := by simpa [position?, hc] using hn
    generalize hr : c.next s = r at h
    obtain ⟨reading, c'⟩ := r
    cases h
    obtain ⟨hitem, hpos⟩ := Channel.next_message hr hn
    exact ⟨by simpa [Memory.log, hc] using hitem, by simpa [position?] using hpos⟩

/-! ## Which streams are open -/

variable {m m' : Memory} {key key' : String} {s s' : Nat}

theorem position?_close (m : Memory) (key key' : String) (s s' : Nat) :
    (m.close key s).position? key' s' =
      if key = key' ∧ s = s' then none else m.position? key' s' := by
  by_cases hk : key = key'
  · subst hk
    by_cases hs : s = s'
    · subst hs
      cases hc : m.channels.get? key <;>
        simp [position?, close, hc, Channel.position?_leave_self]
    · rw [if_neg fun h => hs h.2]
      exact (close_spares m key s).position key s' hs
  · simp [position?, close, hk]

theorem position?_of_subscribe (h : m.subscribe key = .ok (s, m'))
    (hne : ¬(key = key' ∧ s = s')) : m'.position? key' s' = m.position? key' s' := by
  obtain ⟨-, -, hspares, -⟩ := subscribe_spares h
  by_cases hs : s = s'
  · have hk : key ≠ key' := fun hk => hne ⟨hk, hs⟩
    cases attempt_ok h
    simp [position?, hk]
  · exact hspares.position key' s' hs

theorem position?_of_next {r : Reading} (h : m.next key s = (r, m'))
    (ho : m'.position? key' s' ≠ none) : m.position? key' s' ≠ none := by
  unfold Memory.next at h
  split at h
  · cases h
    exact ho
  · next c hc =>
    generalize hr : c.next s = n at h
    obtain ⟨r', c'⟩ := n
    cases h
    by_cases hk : key = key'
    · subst hk
      have ho : c'.position? s' ≠ none := by simpa [position?] using ho
      simpa [position?, hc] using Channel.position?_of_next hr ho
    · simpa [position?, hk] using ho

end Memory

end Muster
