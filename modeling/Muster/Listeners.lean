import Muster.Table

/-!
# Listeners by cluster

Which listeners a cluster has, in order of registration, and which of them are queued because
they joined a running subscription and still have to be synchronised. A listener may be
registered more than once. A cluster with no listener left has no entry and no queue; a queue
that lost its members one by one keeps an empty entry.

| here | in the program, `ListenerRegistry` |
| --- | --- |
| `add`, `remove` | `add`, `remove` |
| `enqueue`, `takePending` | `mark_pending`, `take_pending` |
| `of`, `count`, `clusters` | `listeners`, `count`, `clusters` |
| `summary` | its debug text |
-/
namespace Muster

structure Listeners (α : Type) where
  registered : Table String (List α) := {}
  queued : Table String (List α) := {}
deriving Repr, Inhabited

namespace Listeners

variable {α : Type}

/-- The listeners of a cluster, in order of registration. -/
def of (ls : Listeners α) (cluster : String) : List α := (ls.registered.get? cluster).getD []

/-- The listeners of a cluster that wait to be synchronised, in order. -/
def pending (ls : Listeners α) (cluster : String) : List α := (ls.queued.get? cluster).getD []

def count (ls : Listeners α) (cluster : String) : Nat := (ls.of cluster).length

/-- Clusters with at least one listener. -/
def clusters (ls : Listeners α) : List String := ls.registered.keys

/-- Registers a listener after the others. -/
def add (ls : Listeners α) (cluster : String) (l : α) : Listeners α :=
  { ls with registered := ls.registered.insert cluster (ls.of cluster ++ [l]) }

/-- Queues a listener to be synchronised. -/
def enqueue (ls : Listeners α) (cluster : String) (l : α) : Listeners α :=
  { ls with queued := ls.queued.insert cluster (ls.pending cluster ++ [l]) }

/-- Empties the queue of a cluster. -/
def takePending (ls : Listeners α) (cluster : String) : List α × Listeners α :=
  (ls.pending cluster, { ls with queued := ls.queued.erase cluster })

/-! ## What each operation does to the two lists -/

@[simp] theorem of_add (ls : Listeners α) (c c' : String) (l : α) :
    (ls.add c l).of c' = if c = c' then ls.of c ++ [l] else ls.of c' := by
  simp only [of, add, Table.get?_insert]
  split <;> rfl

@[simp] theorem pending_add (ls : Listeners α) (c c' : String) (l : α) :
    (ls.add c l).pending c' = ls.pending c' := rfl

@[simp] theorem of_enqueue (ls : Listeners α) (c c' : String) (l : α) :
    (ls.enqueue c l).of c' = ls.of c' := rfl

@[simp] theorem pending_enqueue (ls : Listeners α) (c c' : String) (l : α) :
    (ls.enqueue c l).pending c' = if c = c' then ls.pending c ++ [l] else ls.pending c' := by
  simp only [pending, enqueue, Table.get?_insert]
  split <;> rfl

@[simp] theorem takePending_fst (ls : Listeners α) (c : String) :
    (ls.takePending c).1 = ls.pending c := rfl

@[simp] theorem of_takePending (ls : Listeners α) (c c' : String) :
    (ls.takePending c).2.of c' = ls.of c' := rfl

@[simp] theorem pending_takePending (ls : Listeners α) (c c' : String) :
    (ls.takePending c).2.pending c' = if c = c' then [] else ls.pending c' := by
  simp only [pending, takePending, Table.get?_erase]
  split <;> rfl

section
variable [DecidableEq α]

/-- Ends the first registration of a listener and takes it out of the queue altogether. Answers
how many registrations the cluster has left, or nothing if the listener had none. -/
def remove (ls : Listeners α) (cluster : String) (l : α) : Option Nat × Listeners α :=
  if l ∈ ls.of cluster then
    let left := (ls.of cluster).erase l
    let queued := ls.queued.modify cluster fun q => q.filter (· ≠ l)
    if left = [] then
      (some 0, { registered := ls.registered.erase cluster, queued := queued.erase cluster })
    else (some left.length, { registered := ls.registered.insert cluster left, queued })
  else (none, ls)

/-- Nothing is changed for a listener that has no registration. -/
theorem remove_of_not_mem {ls : Listeners α} {c : String} {l : α} (h : l ∉ ls.of c) :
    ls.remove c l = (none, ls) := by
  simp [remove, h]

theorem remove_fst {ls : Listeners α} {c : String} {l : α} (h : l ∈ ls.of c) :
    (ls.remove c l).1 = some ((ls.of c).erase l).length := by
  unfold remove
  rw [if_pos h]
  by_cases he : (ls.of c).erase l = []
  · rw [if_pos he, he]; rfl
  · rw [if_neg he]

theorem of_remove {ls : Listeners α} {c : String} {l : α} (h : l ∈ ls.of c) (c' : String) :
    (ls.remove c l).2.of c' = if c = c' then (ls.of c).erase l else ls.of c' := by
  unfold remove
  rw [if_pos h]
  by_cases he : (ls.of c).erase l = []
  · rw [if_pos he, he]
    simp only [of, Table.get?_erase]
    split <;> rfl
  · rw [if_neg he]
    simp only [of, Table.get?_insert]
    split <;> rfl

/-- A registration that ends takes the listener out of the queue, also if it has others left. -/
theorem pending_remove {ls : Listeners α} {c : String} {l : α} (h : l ∈ ls.of c) (c' : String) :
    (ls.remove c l).2.pending c' =
      if c = c' then
        (if (ls.of c).erase l = [] then [] else (ls.pending c).filter (· ≠ l))
      else ls.pending c' := by
  unfold remove
  rw [if_pos h]
  by_cases hc : c = c'
  · subst hc
    by_cases he : (ls.of c).erase l = []
    · rw [if_pos he, if_pos rfl, if_pos he]
      simp [pending]
    · rw [if_neg he, if_pos rfl, if_neg he]
      cases hq : ls.queued.get? c <;> simp [pending, hq]
  · rw [if_neg hc]
    by_cases he : (ls.of c).erase l = []
    · rw [if_pos he]
      simp [pending, hc]
    · rw [if_neg he]
      simp [pending, hc]

end

/-- A summary for people: how many clusters have an entry, and how many a queue. -/
def summary (ls : Listeners α) : String :=
  "ListenerRegistry \x7b clusters: " ++ toString ls.registered.size ++ ", pending: "
    ++ toString ls.queued.size ++ " \x7d"

end Listeners

end Muster
