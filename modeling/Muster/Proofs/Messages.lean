import Mathlib.Data.List.Basic
import Muster.Proofs.MoveEffects

/-!
# Messages that were passed on and applied

The record read back for the messages that tasks passed on to their listeners and that updaters
applied (`messagesOf`), by task or by cluster, and what one more move adds.
-/
namespace Muster

/-- The task and the message that it passes on with a mark. -/
def Mark.dispatch? : Mark → Option (Nat × String)
  | .dispatched id m _ => some (id, m)
  | _ => none

/-- The task and the message that an updater it called applied with a mark. -/
def Mark.application? : Mark → Option (Nat × String)
  | .returned id (.updater _ _) (.event m) none => some (id, m)
  | _ => none

/-- The messages of marks that some tasks made, oldest first. -/
def messagesOf (kind : Mark → Option (Nat × String)) (tasks : Nat → Bool) (marks : List Mark) :
    List String :=
  (marks.filterMap kind).reverse.filterMap fun p => if tasks p.1 then some p.2 else none

/-- The kind of marks is about messages, and tells the task that made the mark. -/
def Telling (kind : Mark → Option (Nat × String)) : Prop :=
  ∀ m p, kind m = some p → m.owner? = some p.1 ∧ m.tells = true

theorem telling_dispatch? : Telling Mark.dispatch? := by
  intro m p h
  unfold Mark.dispatch? at h
  split at h
  · cases h
    exact ⟨rfl, rfl⟩
  · cases h

theorem telling_application? : Telling Mark.application? := by
  intro m p h
  unfold Mark.application? at h
  split at h
  · cases h
    exact ⟨rfl, rfl⟩
  · cases h

section
variable {kind : Mark → Option (Nat × String)} {tasks tasks' : Nat → Bool}
  {ms since told : List Mark}

/-- Only marks of messages matter. -/
theorem filterMap_tells (hk : Telling kind) (marks : List Mark) :
    (marks.filter Mark.tells).filterMap kind = marks.filterMap kind := by
  rw [List.filterMap_filter]
  congr 1
  funext m
  cases hm : m.tells with
  | true => simp
  | false =>
    cases hp : kind m with
    | none => simp
    | some p =>
      have htells := (hk m p hp).2
      rw [hm] at htells
      cases htells

theorem messagesOf_congr (hk : Telling kind)
    (h : ∀ m ∈ ms, ∀ id, m.owner? = some id → tasks' id = tasks id) :
    messagesOf kind tasks' ms = messagesOf kind tasks ms := by
  refine List.filterMap_congr fun p hp => ?_
  obtain ⟨m, hm, hkind⟩ := List.mem_filterMap.1 (List.mem_reverse.1 hp)
  rw [h m hm p.1 (hk m p hkind).1]

theorem filterMap_eq_nil (hk : Telling kind) (h : ∀ m ∈ ms, m.owner? = none) :
    ms.filterMap kind = [] := by
  refine List.filterMap_eq_nil_iff.2 fun m hm => ?_
  cases hp : kind m with
  | none => rfl
  | some p =>
    have howner := (hk m p hp).1
    rw [h m hm] at howner
    cases howner

theorem messagesOf_eq_nil (hk : Telling kind)
    (h : ∀ m ∈ ms, ∀ id, m.owner? = some id → tasks id = false) :
    messagesOf kind tasks ms = [] := by
  refine List.filterMap_eq_nil_iff.2 fun p hp => ?_
  obtain ⟨m, hm, hkind⟩ := List.mem_filterMap.1 (List.mem_reverse.1 hp)
  simp [h m hm p.1 (hk m p hkind).1]

/-- What came later is recorded first. -/
theorem filterMap_grow (hk : Telling kind)
    (h : ms.filter Mark.tells = told ++ since.filter Mark.tells) :
    ms.filterMap kind = told.filterMap kind ++ since.filterMap kind := by
  rw [← filterMap_tells hk, h, List.filterMap_append, filterMap_tells hk]

/-- What came later is told last. -/
theorem messagesOf_grow (hk : Telling kind)
    (h : ms.filter Mark.tells = told ++ since.filter Mark.tells) :
    messagesOf kind tasks ms = messagesOf kind tasks since ++ messagesOf kind tasks told := by
  simp [messagesOf, filterMap_grow hk h]

end

namespace Position

theorem tally_of_stream? {p : Position} (h : p.stream? = none) : p.tally = 0 := by
  cases p <;> first | rfl | cases h

/-- The message that is being delivered and has not reached all updaters. -/
def pending (p : Position) : List String := if p.tally = 0 then [] else p.message?.toList

theorem pending_congr {p p' : Position} (h : p.Alike p') : p'.pending = p.pending := by
  have hmessage : ∀ {q : Position}, q.tally ≠ 0 → ∃ m, q.message? = some m := by
    intro q hq
    cases q with
    | passing s pass | calling s pass =>
      cases pass with
      | beforeDelivery m | delivery m => exact ⟨m, rfl⟩
      | _ => exact absurd rfl hq
    | _ => exact absurd rfl hq
  unfold pending
  rw [h.tally]
  split
  · rfl
  · next htally =>
    obtain ⟨m, hm⟩ := hmessage (h.tally ▸ htally)
    rw [hm, h.message m hm]

end Position

namespace World

/-- The task is one of the cluster. -/
def serves (w : World) (c : String) (id : Nat) : Bool := (w.tasks[id]?).any fun t => t.cluster == c

/-- The messages that tasks of the cluster passed on, oldest first. -/
def dispatched (w : World) (c : String) (marks : List Mark) : List String :=
  messagesOf Mark.dispatch? (w.serves c) marks

/-- The messages that updaters of the cluster applied, oldest first. -/
def applied (w : World) (c : String) (marks : List Mark) : List String :=
  messagesOf Mark.application? (w.serves c) marks

section
variable {setup : Setup} {w w' : World} {c : String} {id : Nat} {t : Task}
  {since past told : List Mark}

theorem serves_of_task (ht : w.tasks[id]? = some t) : w.serves t.cluster id = true := by
  simp [serves, ht]

theorem Shift.trace (h : Shift setup w w') : ∃ ms, w'.trace = ms ++ w.trace := by
  cases h with
  | others e =>
    obtain ⟨ms, hms, -⟩ := (e 0).trace
    exact ⟨ms, hms⟩
  | @own id _ _ _ _ _ e =>
    obtain ⟨ms, hms, -⟩ := (e (id + 1) (by omega)).trace
    exact ⟨ms, hms⟩

theorem Shift.serves (h : Shift setup w w') (ht : w.tasks[id]? = some t) :
    w'.serves c id = w.serves c id := by
  have elsewhere : Elsewhere id w w' → w'.serves c id = w.serves c id := fun e => by
    obtain ⟨t', ht', hc, -⟩ := e.task t ht
    simp [World.serves, ht, ht', hc]
  cases h with
  | others e => exact elsewhere (e id)
  | @own j u u' hu hu' hc e =>
    by_cases hj : j = id
    · subst hj
      simp [World.serves, hu, hu', hc]
    · exact elsewhere (e id hj)

/-- What a move adds to the messages of a cluster. -/
theorem Recorded.tells (h : Recorded setup w) (hs : Shift setup w w')
    (htold : w'.trace.filter Mark.tells = told ++ w.trace.filter Mark.tells) (c : String)
    (htrace : w.trace = since ++ past) : ∃ since', w'.trace = since' ++ past ∧
      w'.dispatched c since' = w.dispatched c since ++ w'.dispatched c told ∧
      w'.applied c since' = w.applied c since ++ w'.applied c told := by
  obtain ⟨ms, hms⟩ := hs.trace
  rw [hms, htrace] at htold
  rw [htrace] at hms
  have hfilter : (ms ++ since).filter Mark.tells = told ++ since.filter Mark.tells := by
    simp only [List.filter_append, ← List.append_assoc] at htold ⊢
    exact List.append_cancel_right htold
  have hsame : ∀ m ∈ since, ∀ id, m.owner? = some id → w'.serves c id = w.serves c id := by
    intro m hm id howner
    cases ht : w.tasks[id]? with
    | none => exact absurd howner (h.unmarked id ht m (by rw [htrace]; simp [hm]))
    | some t => exact hs.serves ht
  refine ⟨ms ++ since, by rw [hms, List.append_assoc], ?_, ?_⟩
  · rw [dispatched, messagesOf_grow telling_dispatch? hfilter,
      messagesOf_congr telling_dispatch? hsame]
    rfl
  · rw [applied, messagesOf_grow telling_application? hfilter,
      messagesOf_congr telling_application? hsame]
    rfl

/-- Where nothing is told of a cluster, it has no new messages. -/
theorem Shift.hushed (hs : Shift setup w w')
    (h : ∀ m ∈ told, m.owner? = none ∨
      ∃ j t, m.owner? = some j ∧ w.tasks[j]? = some t ∧ t.cluster ≠ c) :
    w'.dispatched c told = [] ∧ w'.applied c told = [] := by
  have hnone : ∀ m ∈ told, ∀ id, m.owner? = some id → w'.serves c id = false := by
    intro m hm id hid
    rcases h m hm with hnone | ⟨j, t, hj, ht, hc⟩
    · rw [hnone] at hid
      cases hid
    · cases hid.symm.trans hj
      rw [hs.serves ht]
      simpa [World.serves, ht] using hc
  exact ⟨messagesOf_eq_nil telling_dispatch? hnone, messagesOf_eq_nil telling_application? hnone⟩

end

end World

end Muster
