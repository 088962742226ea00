import Muster.Proofs.Hashes
import Muster.Proofs.CacheRefills
import Mathlib.Data.List.DropRight

/-!
# Members against their history

Events and whole snapshots put into the cached view of a cluster, in any order. The members follow
from the set that was put in last and from the last event about each address since then.
-/
namespace Muster

theorem lastEvent?_eq_none {es : List Event} {a : Address} :
    lastEvent? es a = none ↔ ∀ e ∈ es, e.address ≠ a := by
  simp [lastEvent?]

/-- The last event about an address is the last of its own events, whatever lies between them. -/
theorem lastEvent?_eq_getLast? (es : List Event) (a : Address) :
    lastEvent? es a = (es.filter fun e => e.address = a).getLast? := by
  rw [lastEvent?, List.getLast?_eq_head?_reverse, ← List.filter_reverse, List.head?_filter]

namespace Membership

/-- What is done to the members. -/
inductive Edit where
  | apply (e : Event)
  | replace (as : List Address)
deriving DecidableEq, Repr

namespace Edit

def event? : Edit → Option Event
  | apply e => some e
  | replace _ => none

def set? : Edit → Option (List Address)
  | apply _ => none
  | replace as => some as

end Edit

/-! ## What a history says -/

/-- The set that was put in last, at first the empty one. -/
def base (h : List Edit) : List Address := (h.filterMap Edit.set?).getLast?.getD []

/-- The events applied since then, oldest first. -/
def since (h : List Edit) : List Event :=
  (h.rtakeWhile fun x => x.event?.isSome).filterMap Edit.event?

@[simp] theorem base_nil : base [] = [] := rfl

@[simp] theorem since_nil : since [] = [] := rfl

@[simp] theorem base_apply (h : List Edit) (e : Event) : base (h ++ [.apply e]) = base h := by
  simp [base, Edit.set?]

@[simp] theorem base_replace (h : List Edit) (as : List Address) :
    base (h ++ [.replace as]) = as := by
  simp [base, Edit.set?]

@[simp] theorem since_apply (h : List Edit) (e : Event) :
    since (h ++ [.apply e]) = since h ++ [e] := by
  rw [since, List.rtakeWhile_concat_pos _ _ _ rfl, List.filterMap_append]
  rfl

@[simp] theorem since_replace (h : List Edit) (as : List Address) :
    since (h ++ [.replace as]) = [] := by
  rw [since, List.rtakeWhile_concat_neg _ _ _ (by simp [Edit.event?])]
  rfl

/-- What the history says of an address. -/
def Lists (h : List Edit) (a : Address) : Prop :=
  (∃ e, lastEvent? (since h) a = some e ∧ e.kind = .register) ∨
    lastEvent? (since h) a = none ∧ a ∈ base h

theorem lists_apply (h : List Edit) (e : Event) (a : Address) :
    Lists (h ++ [.apply e]) a ↔ if e.address = a then e.kind = .register else Lists h a := by
  by_cases ha : e.address = a <;> simp [Lists, lastEvent?_concat, ha]

theorem lists_replace (h : List Edit) (as : List Address) (a : Address) :
    Lists (h ++ [.replace as]) a ↔ a ∈ as := by
  simp [Lists, lastEvent?]

/-! ## Edits one after another -/

section
variable {α : Type} {m : Membership α} {e : Event}

def edit (m : Membership α) : Edit → Membership α
  | .apply e => m.apply e
  | .replace as => m.replace as

def edits (m : Membership α) (h : List Edit) : Membership α := h.foldl edit m

theorem edits_concat (m : Membership α) (h : List Edit) (x : Edit) :
    m.edits (h ++ [x]) = (m.edits h).edit x :=
  List.foldl_concat ..

theorem nodup_edits (h : List Edit) : (({} : Membership α).edits h).members.Nodup := by
  induction h using List.reverseRecOn with
  | nil => exact List.nodup_nil
  | append_singleton h x ih =>
    rw [edits_concat]
    cases x with
    | apply e => exact nodup_apply ih e
    | replace as => exact nodup_replace _ as

/-- The members are those that the history lists. -/
theorem mem_edits (h : List Edit) (a : Address) :
    a ∈ (({} : Membership α).edits h).members ↔ Lists h a := by
  induction h using List.reverseRecOn with
  | nil => simp [edits, Lists, lastEvent?]
  | append_singleton h x ih =>
    rw [edits_concat]
    cases x with
    | apply e =>
      rw [lists_apply]
      by_cases ha : e.address = a
      · rw [if_pos ha, ← ha]
        exact mem_apply (nodup_edits h) e
      · rw [if_neg ha, ← ih]
        exact mem_apply_of_ne ha
    | replace as => rw [lists_replace]; exact List.mem_eraseDups

theorem touched_edits (h : List Edit) :
    (({} : Membership α).edits h).touched = true ↔ ∃ e, .apply e ∈ h := by
  induction h using List.reverseRecOn with
  | nil => simp [edits]
  | append_singleton h x ih =>
    rw [edits_concat]
    cases x with
    | apply e => simp [edit, Membership.apply]
    | replace as => simpa [edit, replace] using ih

/-- An event changes the set unless it says what the set says. -/
theorem changes_eq_true (m : Membership α) (e : Event) :
    m.changes e = true ↔ ¬ (e.address ∈ m.members ↔ e.kind = .register) := by
  unfold changes
  cases e.kind <;> simp

/-- Whether the set was changed is told. -/
theorem changes_iff (hn : m.members.Nodup) :
    m.changes e = true ↔ ¬ ∀ a, a ∈ (m.apply e).members ↔ a ∈ m.members := by
  rw [changes_eq_true]
  refine not_congr ⟨fun hsays a => ?_, fun hsame => ?_⟩
  · by_cases ha : e.address = a
    · rw [← ha, mem_apply hn, hsays]
    · exact mem_apply_of_ne ha
  · rw [← hsame, mem_apply hn]

theorem insertMember_of_mem {a : Address} {as : List Address} (h : a ∈ as) :
    insertMember a as = as := if_pos h

/-- An event that comes again at once changes nothing. -/
theorem apply_apply (hn : m.members.Nodup) : (m.apply e).apply e = m.apply e := by
  have hmem := mem_apply hn e
  unfold apply at hmem ⊢
  cases hk : e.kind with
  | register =>
    simp only [hk, iff_true] at hmem
    rw [insertMember_of_mem hmem]
  | unregister => simp [List.erase_of_not_mem hn.not_mem_erase]

end

section
variable {α : Type}

/-! ## The members as a whole -/

/-- Edits of a new view, in any order. An address is a member exactly if the last event about it
since the last replacement registers it, or there was none and it is in the set that was put in. An
event tells whether it changes the set, and coming again at once changes nothing. Two histories with
the same events for each address, however these mix, give the same set exactly if the sets that were
put in do not differ in an address without an event. Whether there was an event is remembered. -/
theorem members_follow_history (h : List Edit) :
    let m := ({} : Membership α).edits h
    (∀ a, a ∈ m.members ↔ (∃ e, lastEvent? (since h) a = some e ∧ e.kind = .register) ∨
      lastEvent? (since h) a = none ∧ a ∈ base h) ∧
    (∀ e, (m.changes e = true ↔ ¬ ∀ a, a ∈ (m.apply e).members ↔ a ∈ m.members) ∧
      (m.apply e).changes e = false ∧ (m.apply e).apply e = m.apply e) ∧
    (∀ h', (∀ a, (since h).filter (fun e => e.address = a) =
        (since h').filter fun e => e.address = a) →
      ((∀ a, a ∈ m.members ↔ a ∈ (({} : Membership α).edits h').members) ↔
        ∀ a, (∀ e ∈ since h, e.address ≠ a) → (a ∈ base h ↔ a ∈ base h'))) ∧
    (m.touched = true ↔ ∃ e, .apply e ∈ h) := by
  intro m
  have hn : m.members.Nodup := nodup_edits h
  refine ⟨mem_edits h, fun e => ⟨changes_iff hn, ?_, apply_apply hn⟩, fun h' hsame => ?_,
    touched_edits h⟩
  · rw [← Bool.not_eq_true, changes_eq_true, mem_apply hn]
    exact not_not_intro Iff.rfl
  · have hlast : ∀ a, lastEvent? (since h) a = lastEvent? (since h') a := fun a => by
      rw [lastEvent?_eq_getLast?, lastEvent?_eq_getLast?, hsame a]
    refine forall_congr' fun a => ?_
    rw [mem_edits, mem_edits, Lists, Lists, ← hlast a, ← lastEvent?_eq_none]
    cases lastEvent? (since h) a <;> simp

end

/-- Two addresses leave and come in either order. -/
theorem members_follow_history_reordered :
    let a : Address := .v4 #v[10, 0, 0, 1] 8091
    let b : Address := .v6 #v[0, 0, 0, 0, 0, 0, 0, 1] 8091 0 3
    let h : List Edit := [.replace [a, a], .apply (.unregister a), .apply (.register b)]
    let h' : List Edit :=
      [.apply (.unregister b), .replace [a], .apply (.register b), .apply (.unregister a)]
    (∀ x, (since h).filter (fun e => e.address = x) = (since h').filter fun e => e.address = x) ∧
      ∀ x, x ∈ (({} : Membership Unit).edits h).members ↔
        x ∈ (({} : Membership Unit).edits h').members := by
  intro a b h h'
  have hsame : ∀ x, (since h).filter (fun e => e.address = x) =
      (since h').filter fun e => e.address = x := by
    intro x
    have hs : since h = [.unregister a, .register b] := by decide
    have hs' : since h' = [.register b, .unregister a] := by decide
    have hne : a ≠ b := by decide
    by_cases ha : a = x <;> by_cases hb : b = x <;>
      simp_all [Event.register, Event.unregister]
  obtain ⟨-, -, hreordered, -⟩ := members_follow_history (α := Unit) h
  have hbase : base h = [a, a] := by decide
  have hbase' : base h' = [a] := by decide
  exact ⟨hsame, (hreordered h' hsame).2 fun x _ => by simp [hbase, hbase']⟩

end Membership

end Muster
