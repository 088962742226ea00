import Muster.Listeners
import Mathlib.Data.List.Basic
import Mathlib.Data.List.Count

/-!
# Registrations against their history

Commands to the lists of any clusters, in any order, and the history that they leave. The list and
the queue of a cluster follow from the history alone (`Kept`): the list is what was registered less,
for each removal that found somebody, the earliest registration left; the queue is what was queued
and not taken out since. Where whoever is queued is registered next (`Paired`), nobody is queued more
often than registered, and the end of the last registration finds nobody else in the queue.
-/
namespace Muster

namespace Listeners

variable {α : Type}

/-- What is asked of the lists. -/
inductive Command (α : Type) where
  | add (cluster : String) (listener : α)
  | remove (cluster : String) (listener : α)
  | enqueue (cluster : String) (listener : α)
  | takePending (cluster : String)
deriving DecidableEq, Repr

def Command.cluster : Command α → String
  | add c _ => c
  | remove c _ => c
  | enqueue c _ => c
  | takePending c => c

/-- What a command leaves in the history. -/
inductive Entry (α : Type) where
  | added (cluster : String) (listener : α)
  /-- A removal, and how many registrations it left, or nothing if it found none. -/
  | removed (cluster : String) (listener : α) (left : Option Nat)
  | queued (cluster : String) (listener : α)
  | taken (cluster : String) (queue : List α)
deriving DecidableEq, Repr

/-! ## What a history says -/

namespace Entry

/-- Whom the entry registers for a cluster. -/
def added? (c : String) : Entry α → Option α
  | added c' l => if c' = c then some l else none
  | _ => none

/-- Of whom the entry ends a registration. -/
def ended? (c : String) : Entry α → Option α
  | removed c' l (some _) => if c' = c then some l else none
  | _ => none

/-- Whom the entry queues. -/
def queued? (c : String) : Entry α → Option α
  | queued c' l => if c' = c then some l else none
  | _ => none

section
variable [DecidableEq α]

/-- The queue was taken, or a registration of the listener was ended. -/
def withdraws (c : String) (l : α) : Entry α → Bool
  | removed c' l' (some _) => c' = c ∧ l' = l
  | taken c' _ => c' = c
  | _ => false

/-- Or the last registration of anybody was ended. -/
def clears (c : String) (l : α) : Entry α → Bool
  | removed c' l' (some left) => c' = c ∧ (l' = l ∨ left = 0)
  | taken c' _ => c' = c
  | _ => false

end

end Entry

/-- Those who were registered for a cluster, in order. -/
def additions (c : String) (h : List (Entry α)) : List α := h.filterMap (Entry.added? c)

/-- Those of whom a registration was ended, in order. -/
def removals (c : String) (h : List (Entry α)) : List α := h.filterMap (Entry.ended? c)

theorem additions_concat (c : String) (h : List (Entry α)) (e : Entry α) :
    additions c (h ++ [e]) = additions c h ++ (e.added? c).toList := by
  cases he : e.added? c <;> simp [additions, he]

theorem removals_concat (c : String) (h : List (Entry α)) (e : Entry α) :
    removals c (h ++ [e]) = removals c h ++ (e.ended? c).toList := by
  cases he : e.ended? c <;> simp [removals, he]

/-- Those who were queued for a cluster, in order, less whom a later entry took out. -/
def waiting (out : α → Entry α → Bool) (c : String) : List (Entry α) → List α
  | [] => []
  | e :: later =>
    (e.queued? c).toList.filter (fun l => later.all fun e => !out l e) ++ waiting out c later

theorem waiting_concat (out : α → Entry α → Bool) (c : String) (h : List (Entry α)) (e : Entry α) :
    waiting out c (h ++ [e]) =
      (waiting out c h).filter (fun l => !out l e) ++ (e.queued? c).toList := by
  induction h with
  | nil => simp [waiting]
  | cons first later ih => simp [waiting, ih, List.filter_filter, Bool.and_comm]

/-! ## Commands one after another -/

section
variable [DecidableEq α] {ls : Listeners α} {h : List (Entry α)} {cs : List (Command α)}

/-- What a command does, and the entry that it leaves in the history. -/
def obey (ls : Listeners α) : Command α → Entry α × Listeners α
  | .add c l => (.added c l, ls.add c l)
  | .remove c l => (.removed c l (ls.remove c l).1, (ls.remove c l).2)
  | .enqueue c l => (.queued c l, ls.enqueue c l)
  | .takePending c => (.taken c (ls.takePending c).1, (ls.takePending c).2)

/-- What commands do, and the history that they leave, oldest first. -/
def play (ls : Listeners α) : List (Command α) → List (Entry α) × Listeners α
  | [] => ([], ls)
  | command :: rest =>
    let (e, ls) := ls.obey command
    let (h, ls) := ls.play rest
    (e :: h, ls)

/-- A removal either finds nobody and changes nothing, or tells how many registrations are left. -/
theorem remove_cases (ls : Listeners α) (c : String) (l : α) :
    l ∉ ls.of c ∧ ls.remove c l = (none, ls) ∨
      l ∈ ls.of c ∧ (ls.remove c l).1 = some ((ls.of c).erase l).length := by
  by_cases hl : l ∈ ls.of c
  · exact .inr ⟨hl, remove_fst hl⟩
  · exact .inl ⟨hl, remove_of_not_mem hl⟩

/-- A registration is ended only of somebody who has one. -/
theorem mem_of_ended {command : Command α} {c : String} {l : α}
    (he : (ls.obey command).1.ended? c = some l) : l ∈ ls.of c := by
  cases command with
  | remove c' l' =>
    rcases ls.remove_cases c' l' with ⟨-, hr⟩ | ⟨hl, hr⟩
    · simp [obey, hr, Entry.ended?] at he
    · simp only [obey, hr, Entry.ended?, Option.ite_none_right_eq_some, Option.some.injEq] at he
      obtain ⟨rfl, rfl⟩ := he
      exact hl
  | _ => simp [obey, Entry.ended?] at he

/-- What a command does to the list of a cluster. -/
theorem of_obey (ls : Listeners α) (command : Command α) (c : String) :
    (ls.obey command).2.of c =
      (ls.of c).diff ((ls.obey command).1.ended? c).toList ++
        ((ls.obey command).1.added? c).toList := by
  cases command with
  | add c' l => by_cases hc : c' = c <;> simp [obey, Entry.ended?, Entry.added?, hc]
  | remove c' l =>
    rcases ls.remove_cases c' l with ⟨-, hr⟩ | ⟨hl, hr⟩
    · simp [obey, hr, Entry.ended?, Entry.added?]
    · by_cases hc : c' = c
      · subst hc
        simp [obey, hr, of_remove hl, Entry.ended?, Entry.added?]
      · simp [obey, hr, of_remove hl, Entry.ended?, Entry.added?, hc]
  | enqueue c' l => simp [obey, Entry.ended?, Entry.added?]
  | takePending c' => simp [obey, Entry.ended?, Entry.added?]

/-- What a command does to the queue of a cluster. -/
theorem pending_obey (ls : Listeners α) (command : Command α) (c : String) :
    (ls.obey command).2.pending c =
      (ls.pending c).filter (fun l => !(ls.obey command).1.clears c l) ++
        ((ls.obey command).1.queued? c).toList := by
  cases command with
  | add c' l => simp [obey, Entry.clears, Entry.queued?]
  | remove c' l =>
    rcases ls.remove_cases c' l with ⟨-, hr⟩ | ⟨hl, hr⟩
    · simp [obey, hr, Entry.clears, Entry.queued?]
    · by_cases hc : c' = c
      · subst hc
        by_cases hlast : (ls.of c').erase l = []
        · simp [obey, hr, pending_remove hl, Entry.clears, Entry.queued?, hlast]
        · have hlen : 0 ≠ ((ls.of c').erase l).length :=
            fun h => hlast (List.length_eq_zero_iff.1 h.symm)
          simp [obey, hr, pending_remove hl, Entry.clears, Entry.queued?, hlast, hlen, eq_comm]
      · simp [obey, hr, pending_remove hl, Entry.clears, Entry.queued?, hc]
  | enqueue c' l => by_cases hc : c' = c <;> simp [obey, Entry.clears, Entry.queued?, hc]
  | takePending c' => by_cases hc : c' = c <;> simp [obey, Entry.clears, Entry.queued?, hc]

/-! ## The lists follow the history -/

/-- What was registered later is not in the way of earlier removals. -/
theorem diff_append_of_subperm {adds ended : List α} (h : ended.Subperm adds) (more : List α) :
    (adds ++ more).diff ended = adds.diff ended ++ more := by
  induction ended generalizing adds with
  | nil => rfl
  | cons l ended ih =>
    have hl : l ∈ adds := h.subset List.mem_cons_self
    have hrest : ended.Subperm (adds.erase l) := by simpa using h.erase l
    rw [List.diff_cons, List.diff_cons, List.erase_append_left _ hl, ih hrest]

/-- What holds after every command. -/
structure Kept (ls : Listeners α) (h : List (Entry α)) : Prop where
  found : ∀ c, (removals c h).Subperm (additions c h)
  list : ∀ c, ls.of c = (additions c h).diff (removals c h)
  queue : ∀ c, ls.pending c = waiting (fun l e => e.clears c l) c h
  /-- No entry without a listener is kept. -/
  any : ∀ c, ls.registered.get? c ≠ some []

theorem Kept.new : Kept ({} : Listeners α) [] :=
  ⟨fun _ => List.nil_subperm, fun _ => rfl, fun _ => rfl, fun _ => by simp⟩

/-- A cluster whose last registration ends loses its entry. -/
theorem get?_obey_ne_nil (hany : ∀ c, ls.registered.get? c ≠ some []) (command : Command α)
    (c : String) : (ls.obey command).2.registered.get? c ≠ some [] := by
  cases command with
  | add c' l => by_cases hc : c' = c <;> simp [obey, add, hc, hany]
  | remove c' l =>
    unfold obey remove
    dsimp only
    split
    · split
      · by_cases hc : c' = c <;> simp [hc, hany]
      · next hleft =>
        by_cases hc : c' = c
        · subst hc
          simpa using hleft
        · simp [hc, hany]
    · exact hany c
  | _ => exact hany c

theorem Kept.obey (k : Kept ls h) (command : Command α) :
    Kept (ls.obey command).2 (h ++ [(ls.obey command).1]) := by
  have hfound : ∀ c, (removals c (h ++ [(ls.obey command).1])).Subperm (additions c h) := by
    intro c
    rw [removals_concat]
    cases he : (ls.obey command).1.ended? c with
    | none => simpa using k.found c
    | some l =>
      have hl : l ∈ (additions c h).diff (removals c h) := k.list c ▸ mem_of_ended he
      have hall := List.subperm_append_diff_self_of_count_le fun x _ => (k.found c).count_le x
      exact ((List.subperm_append_left _).2 (List.singleton_subperm_iff.2 hl)).trans hall.subperm
  refine ⟨fun c => ?_, fun c => ?_, fun c => ?_, get?_obey_ne_nil k.any command⟩
  · rw [additions_concat]
    exact (hfound c).trans (List.sublist_append_left _ _).subperm
  · rw [additions_concat, diff_append_of_subperm (hfound c), removals_concat, List.diff_append,
      ← k.list, of_obey]
  · rw [pending_obey, k.queue, waiting_concat]

theorem Kept.play (k : Kept ls h) (cs : List (Command α)) :
    Kept (ls.play cs).2 (h ++ (ls.play cs).1) := by
  induction cs generalizing ls h with
  | nil => simpa [Listeners.play] using k
  | cons command cs ih => simpa [Listeners.play] using ih (k.obey command)

theorem Kept.mem_clusters (k : Kept ls h) (c : String) : c ∈ ls.clusters ↔ ls.of c ≠ [] := by
  rw [clusters, Table.mem_keys_iff, of]
  cases hc : ls.registered.get? c with
  | none => simp
  | some l => simpa [hc] using k.any c

/-- A command to one cluster leaves the lists of the others alone. -/
theorem obey_elsewhere {command : Command α} {c : String} (hc : command.cluster ≠ c) :
    (ls.obey command).2.of c = ls.of c ∧ (ls.obey command).2.pending c = ls.pending c := by
  cases command with
  | add c' l => simp_all [obey, Command.cluster]
  | remove c' l =>
    have hne : c' ≠ c := hc
    rcases ls.remove_cases c' l with ⟨-, hr⟩ | ⟨hl, -⟩
    · simp [obey, hr]
    · simp [obey, of_remove hl, pending_remove hl, hne]
  | enqueue c' l => simp_all [obey, Command.cluster]
  | takePending c' => simp_all [obey, Command.cluster]

/-! ## Joins -/

/-- Whoever is queued is registered next. -/
inductive Paired : List (Command α) → Prop
  | nil : Paired []
  | add {c : String} {l : α} {cs : List (Command α)} (rest : Paired cs) : Paired (.add c l :: cs)
  | remove {c : String} {l : α} {cs : List (Command α)} (rest : Paired cs) :
    Paired (.remove c l :: cs)
  | takePending {c : String} {cs : List (Command α)} (rest : Paired cs) :
    Paired (.takePending c :: cs)
  | join {c : String} {l : α} {cs : List (Command α)} (rest : Paired cs) :
    Paired (.enqueue c l :: .add c l :: cs)

/-- What holds after every command but those that queue somebody. -/
structure Even (ls : Listeners α) (h : List (Entry α)) : Prop where
  /-- Nobody is queued more often than registered. -/
  count : ∀ c l, (ls.pending c).count l ≤ (ls.of c).count l
  /-- The end of the last registration takes nobody else out of the queue. -/
  queue : ∀ c, ls.pending c = waiting (fun l e => e.withdraws c l) c h

theorem Even.new : Even ({} : Listeners α) [] := ⟨fun _ _ => Nat.le_refl 0, fun _ => rfl⟩

theorem clears_of_ended {c : String} {l : α} {e : Entry α} (he : e.ended? c = some l) :
    e.clears c l = true := by
  unfold Entry.ended? at he
  split at he
  · simp_all [Entry.clears]
  · cases he

/-- Whoever is queued is registered, so a registration that is the last is theirs. -/
theorem Even.clears_eq (v : Even ls h) (command : Command α) {c : String} {l : α}
    (hl : l ∈ ls.pending c) :
    (ls.obey command).1.clears c l = (ls.obey command).1.withdraws c l := by
  cases command with
  | remove c' l' =>
    rcases ls.remove_cases c' l' with ⟨-, hr⟩ | ⟨hl', hr⟩
    · simp [obey, hr, Entry.clears, Entry.withdraws]
    · simp only [obey, hr, Entry.clears, Entry.withdraws]
      by_cases hlast : ((ls.of c').erase l').length = 0
      · have htheirs : c' = c → l' = l := by
          rintro rfl
          have hof : l ∈ ls.of c' :=
            List.count_pos_iff.1 (Nat.lt_of_lt_of_le (List.count_pos_iff.2 hl) (v.count c' l))
          rcases List.erase_eq_nil_iff.1 (List.length_eq_zero_iff.1 hlast) with hnone | hone
          · simp [hnone] at hof
          · exact (List.mem_singleton.1 (hone ▸ hof)).symm
        simpa [hlast] using htheirs
      · simp [hlast]
  | _ => rfl

/-- A command that queues nobody. -/
theorem Even.obey (v : Even ls h) {command : Command α}
    (hq : ∀ c, (ls.obey command).1.queued? c = none) :
    Even (ls.obey command).2 (h ++ [(ls.obey command).1]) where
  count c l := by
    rw [pending_obey, of_obey, hq, Option.toList_none, List.append_nil, List.count_append]
    refine Nat.le_trans ?_ (Nat.le_add_right _ _)
    have hleft : ((ls.pending c).filter fun l => !(ls.obey command).1.clears c l).count l ≤
        (ls.of c).count l := Nat.le_trans (List.filter_sublist.count_le l) (v.count c l)
    cases he : (ls.obey command).1.ended? c with
    | none => simpa using hleft
    | some l' =>
      by_cases hl : l = l'
      · subst hl
        rw [List.count_eq_zero.2 (by simp [clears_of_ended he])]
        exact Nat.zero_le _
      · simpa [List.count_erase_of_ne hl] using hleft
  queue c := by
    rw [pending_obey, waiting_concat, ← v.queue, List.filter_congr fun l hl => by
      rw [v.clears_eq command hl]]

/-- Somebody is queued and then registered. -/
theorem Even.join (v : Even ls h) (c : String) (l : α) :
    Even ((ls.enqueue c l).add c l) (h ++ [.queued c l, .added c l]) where
  count c' l' := by
    by_cases hc : c = c'
    · subst hc
      simpa [List.count_append] using v.count c l'
    · simpa [hc] using v.count c' l'
  queue c' := by
    rw [List.append_cons, waiting_concat, waiting_concat, ← v.queue]
    by_cases hc : c = c' <;> simp [Entry.queued?, Entry.withdraws, hc]

theorem Even.play (v : Even ls h) (p : Paired cs) :
    Even (ls.play cs).2 (h ++ (ls.play cs).1) := by
  induction p generalizing ls h with
  | nil => simpa [Listeners.play] using v
  | join _ ih => simpa [Listeners.play, Listeners.obey] using ih (v.join _ _)
  | _ _ ih => simpa [Listeners.play] using ih (v.obey fun _ => rfl)

/-! ## The lists as a whole -/

/-- Commands to new lists, in any order. The list of a cluster is what was added less the earliest
registration left for each removal that found one, a removal finds nobody exactly if the listener is
absent, and the clusters are those with a listener. The queue is what was queued since it was taken,
less those removed meanwhile; the last registration takes the whole queue with it. If whoever is
queued is registered next, nobody is queued more often than registered, and those removed meanwhile
are the only ones that the queue has lost. -/
theorem lists_follow_history (cs : List (Command α)) :
    let h := (({} : Listeners α).play cs).1
    let ls := (({} : Listeners α).play cs).2
    (∀ c, ls.of c = (additions c h).diff (removals c h)) ∧
    (∀ c l, ((ls.remove c l).1 = none ↔ l ∉ ls.of c) ∧
      ((ls.remove c l).1 = none → (ls.remove c l).2 = ls) ∧
      ∀ left, (ls.remove c l).1 = some left →
        left = ((ls.remove c l).2.of c).length ∧ (left = 0 → (ls.remove c l).2.pending c = [])) ∧
    (∀ c, c ∈ ls.clusters ↔ ls.of c ≠ []) ∧
    (∀ c, (ls.takePending c).1 = waiting (fun l e => e.clears c l) c h) ∧
    (∀ command c, command.cluster ≠ c → (ls.obey command).2.of c = ls.of c ∧
      (ls.obey command).2.pending c = ls.pending c ∧
      (c ∈ (ls.obey command).2.clusters ↔ c ∈ ls.clusters)) ∧
    (Paired cs → (∀ c l, (ls.pending c).count l ≤ (ls.of c).count l) ∧
      ∀ c, (ls.takePending c).1 = waiting (fun l e => e.withdraws c l) c h) := by
  intro h ls
  have hk : Kept ls h := by simpa using Kept.new.play cs
  refine ⟨hk.list, fun c l => ?_, hk.mem_clusters, hk.queue, fun command c hc => ?_, fun hp => ?_⟩
  · rcases ls.remove_cases c l with ⟨hl, hr⟩ | ⟨hl, hr⟩
    · exact ⟨by simp [hr, hl], fun _ => by rw [hr], fun left hleft => by simp [hr] at hleft⟩
    · refine ⟨by simp [hr, hl], fun hnone => by simp [hr] at hnone, fun left hleft => ?_⟩
      obtain rfl : ((ls.of c).erase l).length = left := Option.some.inj (hr.symm.trans hleft)
      refine ⟨by simp [of_remove hl], fun hlast => ?_⟩
      rw [pending_remove hl, if_pos rfl, if_pos (List.length_eq_zero_iff.1 hlast)]
  · obtain ⟨hof, hpending⟩ := obey_elsewhere hc
    exact ⟨hof, hpending, by rw [(hk.obey command).mem_clusters, hk.mem_clusters, hof]⟩
  · have hv : Even ls h := by simpa using Even.new.play hp
    exact ⟨hv.count, hv.queue⟩

end

/-- A listener with two registrations is removed once, while it and another one are queued. -/
theorem lists_follow_history_removed :
    let cs : List (Command Nat) :=
      [.add "c" 1, .enqueue "c" 1, .add "c" 1, .enqueue "c" 2, .add "c" 2, .remove "c" 1]
    let ls := (({} : Listeners Nat).play cs).2
    Paired cs ∧ ls.of "c" = [1, 2] ∧ (ls.takePending "c").1 = [2] ∧
      (ls.pending "c").count 2 ≤ (ls.of "c").count 2 := by
  intro cs ls
  have hp : Paired cs := .add (.join (.join (.remove .nil)))
  obtain ⟨hlist, -, -, -, -, hjoins⟩ := lists_follow_history cs
  obtain ⟨hcount, hqueue⟩ := hjoins hp
  exact ⟨hp, (hlist "c").trans (by decide), (hqueue "c").trans (by decide), hcount "c" 2⟩

/-- Whoever is queued without a registration goes with the last registration of another. -/
example : (({} : Listeners Nat).play
    [.enqueue "c" 2, .add "c" 1, .remove "c" 1, .takePending "c"]).1.getLast? =
      some (.taken "c" []) := by decide

end Listeners

end Muster
