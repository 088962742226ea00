import Muster.Proofs.Streams
import Mathlib.Algebra.Ring.Nat
import Mathlib.Data.List.Induction
import Mathlib.Data.List.Nodup

/-!
# What streams yield

The history of a channel is what was done with it and what its streams yielded. From the history
alone follows, for each open stream, which items were sent since it was opened and what it has
yielded of them (`track?`). The two always agree (`Account`): a stream passes the items one by one,
in the order in which they were sent, or is told how many it loses.
-/
namespace Muster

/-- The message of a payload. -/
def Item.text? : Item → Option String
  | payload m => some m
  | disconnect => none

namespace Reading

def text? : Reading → Option String
  | message m => some m
  | _ => none

/-- How many items the stream was told that it lost. -/
def lost : Reading → Nat
  | lagged n => n
  | _ => 0

/-- What a stream yields if it has lost nothing and this item, if any, is next. -/
def ofItem? : Option Item → Reading
  | none => pending
  | some (.payload m) => message m
  | some .disconnect => ended

end Reading

namespace Channel

/-! ## Readings against items -/

/-- How many items a stream has passed with these readings: those that it delivered and those that
it said it lost. -/
def passed (rs : List Reading) : Nat :=
  (rs.filterMap Reading.text?).length + (rs.map Reading.lost).sum

@[simp] theorem passed_nil : passed [] = 0 := rfl

@[simp] theorem passed_append (rs rs' : List Reading) :
    passed (rs ++ rs') = passed rs + passed rs' := by
  simp only [passed, List.filterMap_append, List.length_append, List.map_append, List.sum_append]
  omega

@[simp] theorem passed_message (m : String) (rs : List Reading) :
    passed (.message m :: rs) = passed rs + 1 := by
  simp only [passed, List.filterMap_cons, Reading.text?, List.length_cons, List.map_cons,
    Reading.lost, List.sum_cons]
  omega

@[simp] theorem passed_lagged (n : Nat) (rs : List Reading) :
    passed (.lagged n :: rs) = n + passed rs := by
  simp only [passed, List.filterMap_cons, Reading.text?, List.map_cons, Reading.lost,
    List.sum_cons]
  omega

@[simp] theorem passed_pending (rs : List Reading) : passed (.pending :: rs) = passed rs := by
  simp only [passed, List.filterMap_cons, Reading.text?, List.map_cons, Reading.lost,
    List.sum_cons, Nat.zero_add]

/-- Items read one after another: a message is the next item, and a lag tells how many items are
left out; behind these there are at least as many as the channel keeps. -/
inductive Yields (kept : Nat) : List Item → List Reading → Prop where
  | nil {items : List Item} : Yields kept items []
  | pending {items : List Item} {rs : List Reading} (rest : Yields kept items rs) :
    Yields kept items (.pending :: rs)
  | message {m : String} {items : List Item} {rs : List Reading} (rest : Yields kept items rs) :
    Yields kept (.payload m :: items) (.message m :: rs)
  | lagged {lost items : List Item} {rs : List Reading} (any : lost ≠ [])
    (full : kept ≤ items.length) (rest : Yields kept items rs) :
    Yields kept (lost ++ items) (.lagged lost.length :: rs)

namespace Yields

variable {kept : Nat} {items : List Item} {rs rs' : List Reading}

/-- Items that come later change nothing. -/
theorem grow (h : Yields kept items rs) (more : List Item) : Yields kept (items ++ more) rs := by
  induction h with
  | nil => exact .nil
  | pending _ ih => exact .pending ih
  | message _ ih => exact .message ih
  | lagged hany hfull _ ih =>
    rw [List.append_assoc]
    exact .lagged hany (by rw [List.length_append]; omega) ih

/-- Reading goes on with the items that were not passed. -/
theorem append (h : Yields kept items rs) (h' : Yields kept (items.drop (passed rs)) rs') :
    Yields kept items (rs ++ rs') := by
  induction h with
  | nil => exact h'
  | pending _ ih => exact .pending (ih (by simpa using h'))
  | message _ ih => exact .message (ih (by simpa using h'))
  | lagged hany hfull _ ih => exact .lagged hany hfull (ih (by simpa using h'))

theorem single_lagged {n : Nat} (hn : 0 < n) (hfull : kept + n ≤ items.length) :
    Yields kept items [.lagged n] := by
  have hlost : (items.take n).length = n := by
    rw [List.length_take]
    omega
  have hrest : kept ≤ (items.drop n).length := by
    rw [List.length_drop]
    omega
  have hany : items.take n ≠ [] := List.ne_nil_of_length_pos (by omega)
  have h := Yields.lagged hany hrest .nil
  rwa [List.take_append_drop, hlost] at h

/-- The messages are payloads of the items, in their order. -/
theorem sublist (h : Yields kept items rs) :
    (rs.filterMap Reading.text?).Sublist (items.filterMap Item.text?) := by
  induction h with
  | nil => exact List.nil_sublist _
  | pending _ ih => exact ih
  | message _ ih => exact ih.cons_cons _
  | lagged _ _ _ ih =>
    rw [List.filterMap_append]
    exact ih.trans (List.sublist_append_right _ _)

/-- A stream that never lost anything has delivered everything up to where it is. -/
theorem complete (h : Yields kept items rs) (hnone : (rs.map Reading.lost).sum = 0) :
    (rs.filterMap Reading.text?).map Item.payload =
      items.take (rs.filterMap Reading.text?).length := by
  induction h with
  | nil => rfl
  | pending _ ih => exact ih (by simpa [Reading.lost] using hnone)
  | message _ ih =>
    have hrest := ih (by simpa [Reading.lost] using hnone)
    simpa [Reading.text?] using hrest
  | lagged hany _ _ _ =>
    have hlost := List.length_pos_iff.2 hany
    simp only [List.map_cons, Reading.lost, List.sum_cons] at hnone
    omega

end Yields

/-! ## Histories -/

/-- What happens to a channel. -/
inductive Entry where
  | sent (item : Item)
  | joined (stream : Nat)
  | yielded (stream : Nat) (reading : Reading)
  | left (stream : Nat)
deriving DecidableEq, Repr

/-- The item that is sent. -/
def Entry.item? : Entry → Option Item
  | sent i => some i
  | _ => none

/-- What this stream yields. -/
def Entry.reading? (s : Nat) : Entry → Option Reading
  | yielded s' r => if s' = s then some r else none
  | _ => none

/-- The channels with a history, oldest entry first. -/
inductive Lives (capacity : Nat) : List Entry → Channel → Prop where
  | new : Lives capacity [] { capacity }
  | sent {h : List Entry} {c : Channel} (past : Lives capacity h c) (i : Item) :
    Lives capacity (h ++ [.sent i]) (c.send i)
  /-- What is sent to no stream need not be kept. -/
  | unheard {h : List Entry} {c : Channel} (past : Lives capacity h c) (i : Item)
    (none : c.streams = []) : Lives capacity (h ++ [.sent i]) c
  /-- Every stream has a new number. -/
  | joined {h : List Entry} {c : Channel} (past : Lives capacity h c) {s : Nat}
    (new : .joined s ∉ h) : Lives capacity (h ++ [.joined s]) (c.join s)
  | yielded {h : List Entry} {c c' : Channel} (past : Lives capacity h c) {s : Nat} {r : Reading}
    (next : c.next s = (r, c')) : Lives capacity (h ++ [.yielded s r]) c'
  | left {h : List Entry} {c : Channel} (past : Lives capacity h c) (s : Nat) :
    Lives capacity (h ++ [.left s]) (c.leave s)

/-- What the history tells of an open stream: the items that were sent since it was opened, oldest
first, and what it has yielded. -/
structure Track where
  items : List Item := []
  readings : List Reading := []
deriving DecidableEq, Repr

namespace Track

/-- The messages that the stream has delivered. -/
def delivered (t : Track) : List String := t.readings.filterMap Reading.text?

/-- How many items the stream was told that it lost. -/
def skipped (t : Track) : Nat := (t.readings.map Reading.lost).sum

/-- How many items the stream has not yet passed. -/
def unread (t : Track) : Nat := t.items.length - passed t.readings

/-- What the stream yields next, if the channel keeps so many items. -/
def upcoming (t : Track) (kept : Nat) : Reading :=
  if kept < t.unread then .lagged (t.unread - kept)
  else .ofItem? t.items[passed t.readings]?

def send (t : Track) (i : Item) : Track := { t with items := t.items ++ [i] }

def read (t : Track) (r : Reading) : Track := { t with readings := t.readings ++ [r] }

@[simp] theorem send_items (t : Track) (i : Item) : (t.send i).items = t.items ++ [i] := rfl
@[simp] theorem send_readings (t : Track) (i : Item) : (t.send i).readings = t.readings := rfl
@[simp] theorem read_items (t : Track) (r : Reading) : (t.read r).items = t.items := rfl
@[simp] theorem read_readings (t : Track) (r : Reading) :
    (t.read r).readings = t.readings ++ [r] := rfl

/-- After a lag the stream goes on with the oldest item that is kept. -/
theorem upcoming_read_lagged {t : Track} {kept : Nat} (h : kept < t.unread) :
    (t.read (.lagged (t.unread - kept))).upcoming kept =
      .ofItem? t.items[t.items.length - kept]? := by
  have hunread : t.unread = t.items.length - passed t.readings := rfl
  have hpassed : passed (t.read (.lagged (t.unread - kept))).readings =
      t.items.length - kept := by
    rw [read_readings, passed_append, passed_lagged, passed_nil]
    omega
  have hnow : (t.read (.lagged (t.unread - kept))).unread ≤ kept := by
    rw [unread, hpassed, read_items]
    omega
  rw [upcoming, if_neg (by omega), hpassed, read_items]

/-- What an entry adds to what is told of a stream. -/
def follow (s : Nat) (t : Option Track) : Entry → Option Track
  | .sent i => t.map fun t => t.send i
  | .joined s' => if s' = s then some {} else t
  | .yielded s' r =>
    if s' = s then
      if r = .ended then none else t.map fun t => t.read r
    else t
  | .left s' => if s' = s then none else t

end Track

/-- What a history tells of a stream, if the stream is open. -/
def track? (s : Nat) (h : List Entry) : Option Track := h.foldl (Track.follow s) none

@[simp] theorem track?_append (s : Nat) (h : List Entry) (e : Entry) :
    track? s (h ++ [e]) = Track.follow s (track? s h) e := by
  simp [track?]

/-- A stream is new, or the entry adds to what was told of it before. -/
theorem Track.follow_eq_some {s : Nat} {t' : Option Track} {e : Entry} {t : Track}
    (h : Track.follow s t' e = some t) : e = .joined s ∧ t = {} ∨
      e ≠ .joined s ∧ ∃ u, t' = some u ∧ t.items = u.items ++ e.item?.toList ∧
        t.readings = u.readings ++ (e.reading? s).toList := by
  cases e with
  | sent i =>
    obtain ⟨u, rfl, rfl⟩ := Option.map_eq_some_iff.1 h
    exact .inr ⟨nofun, u, rfl, rfl, by simp [Entry.reading?]⟩
  | joined s' =>
    simp only [follow] at h
    split at h
    · next hs =>
      cases h
      exact .inl ⟨by rw [hs], rfl⟩
    · next hs => exact .inr ⟨by simpa using hs, t, h, by simp [Entry.item?, Entry.reading?]⟩
  | yielded s' r =>
    simp only [follow] at h
    split at h
    · next hs =>
      split at h
      · cases h
      · obtain ⟨u, rfl, rfl⟩ := Option.map_eq_some_iff.1 h
        exact .inr ⟨nofun, u, rfl, by simp [Entry.item?], by simp [Entry.reading?, hs]⟩
    · next hs => exact .inr ⟨nofun, t, h, by simp [Entry.item?], by simp [Entry.reading?, hs]⟩
  | left s' =>
    simp only [follow] at h
    split at h
    · cases h
    · exact .inr ⟨nofun, t, h, by simp [Entry.item?, Entry.reading?]⟩

theorem filterMap_concat {α β : Type} (f : α → Option β) (as : List α) (a : α) :
    (as ++ [a]).filterMap f = as.filterMap f ++ (f a).toList := by
  rw [List.filterMap_append]
  cases h : f a <;> simp [h]

/-- What is told of an open stream are the items that were sent and what it has yielded since it was
opened. -/
theorem track?_since {h : List Entry} {s : Nat} {t : Track} (ht : track? s h = some t) :
    ∃ before after, h = before ++ .joined s :: after ∧ t.items = after.filterMap Entry.item? ∧
      t.readings = after.filterMap (Entry.reading? s) := by
  induction h using List.reverseRecOn generalizing t with
  | nil => cases ht
  | append_singleton h e ih =>
    rw [track?_append] at ht
    rcases Track.follow_eq_some ht with ⟨rfl, rfl⟩ | ⟨-, u, hu, hitems, hreadings⟩
    · exact ⟨h, [], rfl, rfl, rfl⟩
    · obtain ⟨before, after, rfl, hi, hr⟩ := ih hu
      refine ⟨before, after ++ [e], by simp, ?_, ?_⟩
      · rw [hitems, hi, filterMap_concat]
      · rw [hreadings, hr, filterMap_concat]

/-- What an entry makes of the streams that are open. -/
def openAfter (streams : List Nat) : Entry → List Nat
  | .joined s => streams ++ [s]
  | .yielded s r => if r = .ended then streams.filter (· ≠ s) else streams
  | .left s => streams.filter (· ≠ s)
  | .sent _ => streams

/-- The open streams, in the order in which they were opened. -/
def openStreams (h : List Entry) : List Nat := h.foldl openAfter []

@[simp] theorem openStreams_append (h : List Entry) (e : Entry) :
    openStreams (h ++ [e]) = openAfter (openStreams h) e := by
  simp [openStreams]

theorem mem_openStreams {h : List Entry} {s : Nat} : s ∈ openStreams h ↔ (track? s h).isSome := by
  induction h using List.reverseRecOn with
  | nil => simp [openStreams, track?]
  | append_singleton h e ih =>
    rw [track?_append, openStreams_append]
    have removed : ∀ s', s ∈ (openStreams h).filter (· ≠ s') ↔
        (if s' = s then none else track? s h).isSome := by
      intro s'
      by_cases hs : s' = s
      · simp [hs]
      · simp [hs, ih, Ne.symm hs]
    cases e with
    | sent i => simpa [openAfter, Track.follow] using ih
    | joined s' =>
      by_cases hs : s' = s
      · simp [openAfter, Track.follow, hs]
      · simp [openAfter, Track.follow, hs, ih, Ne.symm hs]
    | yielded s' r =>
      by_cases hr : r = .ended
      · simpa [openAfter, Track.follow, hr] using removed s'
      · by_cases hs : s' = s <;> simp [openAfter, Track.follow, hr, hs, ih]
    | left s' => exact removed s'

/-- Nothing is told of a stream that was never opened. -/
theorem track?_eq_none {h : List Entry} {s : Nat} (hs : .joined s ∉ h) : track? s h = none := by
  induction h using List.reverseRecOn with
  | nil => rfl
  | append_singleton h e ih =>
    obtain ⟨hpast, hlast⟩ : .joined s ∉ h ∧ .joined s ≠ e := by simpa using hs
    rw [track?_append, ih hpast]
    cases e with
    | joined s' => simp [Track.follow, show s' ≠ s from fun h => hlast (h ▸ rfl)]
    | _ => simp [Track.follow]

/-! ## A channel against its history -/

@[simp] theorem send_log (c : Channel) (i : Item) : (c.send i).log = c.log ++ [i] := rfl
@[simp] theorem join_log (c : Channel) (s : Nat) : (c.join s).log = c.log := rfl
@[simp] theorem moveTo_log (c : Channel) (s n : Nat) : (c.moveTo s n).log = c.log := rfl

/-- What a history tells of a stream agrees with where the stream stands in the channel. -/
structure Account (c : Channel) (s : Nat) (t : Track) : Prop where
  /-- The items since the stream was opened are the last ones of the channel. -/
  items : t.items.IsSuffix c.log
  position : c.position? s = some (c.log.length - t.items.length + passed t.readings)
  passed_le : passed t.readings ≤ t.items.length
  yields : Yields c.capacity t.items t.readings

namespace Account

variable {c c' : Channel} {s : Nat} {t : Track}

theorem congr (h : Account c s t) (hlog : c'.log = c.log) (hcap : c'.capacity = c.capacity)
    (hpos : c'.position? s = c.position? s) : Account c' s t :=
  ⟨hlog ▸ h.items, by rw [hpos, h.position, hlog], h.passed_le, hcap ▸ h.yields⟩

theorem send (h : Account c s t) (i : Item) : Account (c.send i) s (t.send i) := by
  refine ⟨?_, ?_, ?_, h.yields.grow [i]⟩
  · obtain ⟨before, hb⟩ := h.items
    exact ⟨before, by rw [send_log, Track.send_items, ← List.append_assoc, hb]⟩
  · rw [position?_send, h.position, send_log, Track.send_items, List.length_append,
      List.length_append, Nat.add_sub_add_right, Track.send_readings]
  · exact Nat.le_trans h.passed_le (by simp)

/-- A stream begins with nothing sent and nothing yielded. -/
theorem join (hnew : c.position? s = none) : Account (c.join s) s {} := by
  refine ⟨List.nil_suffix, ?_, Nat.le_refl _, .nil⟩
  rw [position?_join, hnew]
  simp

/-- The item at which the stream stands. -/
theorem item (h : Account c s t) :
    c.log[c.log.length - t.items.length + passed t.readings]? = t.items[passed t.readings]? := by
  obtain ⟨before, hb⟩ := h.items
  have hlen : c.log.length - t.items.length = before.length := by
    rw [← hb, List.length_append]
    omega
  rw [hlen, ← hb, List.getElem?_append_right (by omega), Nat.add_sub_cancel_left]

theorem position_moveTo (h : Account c s t) (n : Nat) : (c.moveTo s n).position? s = some n := by
  simp [position?_moveTo, h.position]

/-- Where the stream stands against the oldest item that is kept. -/
theorem behind (h : Account c s t) :
    c.oldest - (c.log.length - t.items.length + passed t.readings) = t.unread - c.capacity := by
  have hle := h.items.length_le
  have hpassed := h.passed_le
  unfold oldest Track.unread
  omega

theorem skip (h : Account c s t) (hlag : c.capacity < t.unread) :
    Account (c.moveTo s c.oldest) s (t.read (.lagged (t.unread - c.capacity))) := by
  have hle := h.items.length_le
  have hpassed := h.passed_le
  have hpast : passed (t.read (.lagged (t.unread - c.capacity))).readings =
      passed t.readings + (t.unread - c.capacity) := by simp
  have hunread : t.unread = t.items.length - passed t.readings := rfl
  refine ⟨h.items, ?_, ?_, h.yields.append (.single_lagged (by omega) ?_)⟩
  · rw [h.position_moveTo, hpast, moveTo_log, Track.read_items, oldest]
    congr 1
    omega
  · rw [hpast, Track.read_items]
    omega
  · rw [List.length_drop]
    omega

theorem deliver (h : Account c s t) {m : String}
    (hitem : t.items[passed t.readings]? = some (.payload m)) :
    Account (c.moveTo s (c.log.length - t.items.length + passed t.readings + 1)) s
      (t.read (.message m)) := by
  obtain ⟨hlt, hget⟩ := List.getElem?_eq_some_iff.1 hitem
  have hpast : passed (t.read (.message m)).readings = passed t.readings + 1 := by simp
  refine ⟨h.items, ?_, ?_, h.yields.append ?_⟩
  · rw [h.position_moveTo, hpast]
    rfl
  · rw [hpast]
    exact hlt
  · rw [List.drop_eq_getElem_cons hlt, hget]
    exact .message .nil

theorem wait (h : Account c s t) : Account c s (t.read .pending) := by
  have hpast : passed (t.read .pending).readings = passed t.readings := by simp
  refine ⟨h.items, ?_, ?_, h.yields.append (.pending .nil)⟩
  · rw [h.position, hpast]
    rfl
  · rw [hpast]
    exact h.passed_le

/-- The next reading follows from what the history tells, and a stream that does not end with it is
then where the history says. -/
theorem next (h : Account c s t) : (c.next s).1 = t.upcoming c.capacity ∧
    ((c.next s).1 ≠ .ended → Account (c.next s).2 s (t.read (c.next s).1)) := by
  have hbehind := h.behind
  have hitem := h.item
  unfold Channel.next Track.upcoming
  rw [h.position]
  generalize hn : c.log.length - t.items.length + passed t.readings = n at hbehind hitem
  simp only
  -- The oldest item that is kept is ahead of the stream if more is unread than is kept.
  by_cases hlag : n < c.oldest
  · have hmore : c.capacity < t.unread := by omega
    rw [if_pos hlag, if_pos hmore, hbehind]
    exact ⟨rfl, fun _ => h.skip hmore⟩
  · rw [if_neg hlag, if_neg (by omega), ← hitem]
    cases hi : c.log[n]? with
    | none => exact ⟨rfl, fun _ => h.wait⟩
    | some i =>
      cases i with
      | payload m =>
        refine ⟨rfl, fun _ => ?_⟩
        have hdel := h.deliver (hitem.symm.trans hi)
        rwa [hn] at hdel
      | disconnect => exact ⟨rfl, fun hr => absurd rfl hr⟩

end Account

/-! ## Which streams there are -/

theorem position?_eq_none_iff {c : Channel} {s : Nat} :
    c.position? s = none ↔ s ∉ c.streams.map Prod.fst := by
  simp only [position?, Option.map_eq_none_iff, List.find?_eq_none, decide_eq_true_eq,
    List.mem_map, not_exists, not_and]

theorem map_fst_moveTo (c : Channel) (s n : Nat) :
    (c.moveTo s n).streams.map Prod.fst = c.streams.map Prod.fst := by
  simp only [moveTo, List.map_map]
  refine List.map_congr_left fun p _ => ?_
  by_cases hp : p.1 = s <;> simp [hp]

theorem map_fst_leave (c : Channel) (s : Nat) :
    (c.leave s).streams.map Prod.fst = (c.streams.map Prod.fst).filter (· ≠ s) := by
  rw [leave, List.filter_map]
  rfl

/-- A reading closes the stream if that has ended, and leaves all others open. -/
theorem next_streams {c c' : Channel} {s : Nat} {r : Reading} (h : c.next s = (r, c')) :
    c'.capacity = c.capacity ∧ c'.streams.map Prod.fst =
      if r = .ended then (c.streams.map Prod.fst).filter (· ≠ s) else c.streams.map Prod.fst := by
  unfold next at h
  split at h
  · next hn =>
    cases h
    have hs := position?_eq_none_iff.1 hn
    refine ⟨rfl, (List.filter_eq_self.2 fun s' hs' => ?_).symm⟩
    simpa using fun h : s' = s => hs (h ▸ hs')
  · split at h
    · cases h
      exact ⟨rfl, map_fst_moveTo c s _⟩
    · split at h
      · cases h
        exact ⟨rfl, rfl⟩
      · cases h
        exact ⟨rfl, map_fst_moveTo c s _⟩
      · cases h
        exact ⟨rfl, map_fst_leave c s⟩

/-- A channel agrees with a history. -/
structure Agrees (capacity : Nat) (h : List Entry) (c : Channel) : Prop where
  capacity : c.capacity = capacity
  streams : c.streams.map Prod.fst = openStreams h
  nodup : (openStreams h).Nodup
  opened : ∀ s t, track? s h = some t → Account c s t

namespace Agrees

variable {capacity : Nat} {h : List Entry} {c c' : Channel} {s : Nat}

/-- A stream of which the history tells nothing is not open. -/
theorem closed (ha : Agrees capacity h c) (hs : track? s h = none) : c.position? s = none := by
  rw [position?_eq_none_iff, ha.streams, mem_openStreams, hs]
  simp

theorem new (capacity : Nat) : Agrees capacity [] { capacity } :=
  ⟨rfl, rfl, List.nodup_nil, fun s t ht => by cases ht⟩

theorem sent (ha : Agrees capacity h c) (i : Item) :
    Agrees capacity (h ++ [.sent i]) (c.send i) := by
  refine ⟨ha.capacity, ?_, ?_, fun s t ht => ?_⟩
  · rw [openStreams_append]
    exact ha.streams
  · rw [openStreams_append]
    exact ha.nodup
  · rw [track?_append] at ht
    obtain ⟨t', ht', rfl⟩ := Option.map_eq_some_iff.1 ht
    exact (ha.opened s t' ht').send i

theorem unheard (ha : Agrees capacity h c) (i : Item) (hnone : c.streams = []) :
    Agrees capacity (h ++ [.sent i]) c := by
  refine ⟨ha.capacity, ?_, ?_, fun s t ht => ?_⟩
  · rw [openStreams_append]
    exact ha.streams
  · rw [openStreams_append]
    exact ha.nodup
  · rw [track?_append] at ht
    obtain ⟨t', ht', -⟩ := Option.map_eq_some_iff.1 ht
    have hs : s ∈ openStreams h := by simp [mem_openStreams, ht']
    simp [← ha.streams, hnone] at hs

theorem joined (ha : Agrees capacity h c) (hnew : .joined s ∉ h) :
    Agrees capacity (h ++ [.joined s]) (c.join s) := by
  have hnone := ha.closed (track?_eq_none hnew)
  have hs : s ∉ openStreams h := by rwa [← ha.streams, ← position?_eq_none_iff]
  refine ⟨ha.capacity, by simp [join, ha.streams, openAfter], ?_, fun s' t ht => ?_⟩
  · rw [openStreams_append, openAfter, List.nodup_append]
    exact ⟨ha.nodup, List.nodup_singleton s, by grind⟩
  · rw [track?_append, Track.follow] at ht
    split at ht
    · next hs' =>
      cases ht
      exact hs' ▸ Account.join hnone
    · next hne => exact (ha.opened s' t ht).congr rfl rfl (by simp [position?_join, hne])

theorem yielded {r : Reading} (ha : Agrees capacity h c) (hnext : c.next s = (r, c')) :
    Agrees capacity (h ++ [.yielded s r]) c' := by
  obtain ⟨hlog, hothers⟩ := next_others hnext
  obtain ⟨hcap, hstreams⟩ := next_streams hnext
  refine ⟨hcap.trans ha.capacity, ?_, ?_, fun s' t ht => ?_⟩
  · rw [openStreams_append, openAfter, hstreams, ha.streams]
  · rw [openStreams_append, openAfter]
    split
    · exact ha.nodup.filter _
    · exact ha.nodup
  · rw [track?_append, Track.follow] at ht
    split at ht
    · next hs =>
      subst hs
      split at ht
      · cases ht
      · next hr =>
        obtain ⟨t', ht', rfl⟩ := Option.map_eq_some_iff.1 ht
        have hread := (ha.opened s t' ht').next.2
        rw [hnext] at hread
        exact hread hr
    · next hne => exact (ha.opened s' t ht).congr hlog hcap (hothers s' hne)

theorem left (ha : Agrees capacity h c) (s : Nat) :
    Agrees capacity (h ++ [.left s]) (c.leave s) := by
  refine ⟨ha.capacity, ?_, ?_, fun s' t ht => ?_⟩
  · rw [openStreams_append, openAfter, map_fst_leave, ha.streams]
  · rw [openStreams_append]
    exact ha.nodup.filter _
  · rw [track?_append, Track.follow] at ht
    split at ht
    · cases ht
    · next hne => exact (ha.opened s' t ht).congr rfl rfl (position?_leave hne)

end Agrees

/-- Every channel agrees with its history. -/
theorem Lives.agrees {capacity : Nat} {h : List Entry} {c : Channel} (hl : Lives capacity h c) :
    Agrees capacity h c := by
  induction hl with
  | new => exact .new capacity
  | sent _ i ih => exact ih.sent i
  | unheard _ i hnone ih => exact ih.unheard i hnone
  | joined _ hnew ih => exact ih.joined hnew
  | yielded _ hnext ih => exact ih.yielded hnext
  | left _ s ih => exact ih.left s

end Channel

end Muster
