import Muster.Proofs.Runs
import Muster.Proofs.Steps

/-!
# What the record tells

The record of all that happened, newest first, read back: which listeners a cluster has, which of
them are queued, and how far the current attempt of a task has come. The listeners and the queue of
a client are those that its record tells (`Booked`), whatever the order of its moves.
-/
namespace Muster

/-! ## Listeners -/

/-- The listeners of a cluster, in order of registration. -/
def registered (c : String) : List Mark → List Listener
  | [] => []
  | .attached c' l _ :: past => if c' = c then registered c past ++ [l] else registered c past
  | .detached c' l :: past => if c' = c then (registered c past).erase l else registered c past
  | _ :: past => registered c past

/-- The listeners of a cluster that joined its task and still have to be synchronised. A listener
loses its places when one of its registrations ends, all do with the last registration. -/
def queued (c : String) : List Mark → List Listener
  | [] => []
  | .attached c' l true :: past => if c' = c then queued c past ++ [l] else queued c past
  | .detached c' l :: past =>
    if c' = c then
      if (registered c past).erase l = [] then [] else (queued c past).filter (· ≠ l)
    else queued c past
  | .took _ c' _ :: past => if c' = c then [] else queued c past
  | _ :: past => queued c past

/-- Marks that are no listener's coming or going. -/
def Mark.isQuiet : Mark → Bool
  | .attached _ _ _ | .detached _ _ | .took _ _ _ => false
  | _ => true

theorem registered_cons {m : Mark} (hm : m.isQuiet = true) (c : String) (past : List Mark) :
    registered c (m :: past) = registered c past := by
  cases m <;> first | rfl | cases hm

theorem queued_cons {m : Mark} (hm : m.isQuiet = true) (c : String) (past : List Mark) :
    queued c (m :: past) = queued c past := by
  cases m <;> first | rfl | cases hm

/-- Who is registered was attached. -/
theorem attached_of_registered {c : String} {l : Listener} {trace : List Mark}
    (h : l ∈ registered c trace) : ∃ joined, .attached c l joined ∈ trace := by
  induction trace with
  | nil => cases h
  | cons m past ih =>
    have older : l ∈ registered c past → ∃ joined, .attached c l joined ∈ m :: past :=
      fun h => (ih h).imp fun _ => List.mem_cons_of_mem _
    cases m with
    | attached c' l' joined =>
      simp only [registered] at h
      split at h
      · next hc =>
        subst hc
        rcases List.mem_append.1 h with h | h
        · exact older h
        · cases List.mem_singleton.1 h
          exact ⟨joined, List.mem_cons_self⟩
      · exact older h
    | detached c' l' =>
      simp only [registered] at h
      split at h
      · exact older (List.mem_of_mem_erase h)
      · exact older h
    | _ => exact older h

/-- Who is queued was attached. -/
theorem attached_of_queued {c : String} {l : Listener} {trace : List Mark}
    (h : l ∈ queued c trace) : ∃ joined, .attached c l joined ∈ trace := by
  induction trace with
  | nil => cases h
  | cons m past ih =>
    have older : l ∈ queued c past → ∃ joined, .attached c l joined ∈ m :: past :=
      fun h => (ih h).imp fun _ => List.mem_cons_of_mem _
    cases m with
    | attached c' l' joined =>
      cases joined with
      | false => exact older h
      | true =>
        simp only [queued] at h
        split at h
        · next hc =>
          subst hc
          rcases List.mem_append.1 h with h | h
          · exact older h
          · cases List.mem_singleton.1 h
            exact ⟨true, List.mem_cons_self⟩
        · exact older h
    | detached c' l' =>
      simp only [queued] at h
      split at h
      · split at h
        · cases h
        · exact older (List.mem_filter.1 h).1
      · exact older h
    | took i c' queue =>
      simp only [queued] at h
      split at h
      · cases h
      · exact older h
    | _ => exact older h

theorem Mark.isQuiet_of_isAside {m : Mark} (hm : m.isAside = true) : m.isQuiet = true := by
  cases m <;> first | rfl | cases hm

theorem Mark.isQuiet_of_isOwn {m : Mark} {id : Nat} (hm : m.isOwn id = true) :
    m.isQuiet = true := by
  cases m <;> first | rfl | cases hm

namespace World

/-- The listeners and the queues are those of the record. -/
structure Booked (w : World) : Prop where
  of : ∀ c, w.listeners.of c = registered c w.trace
  pending : ∀ c, w.listeners.pending c = queued c w.trace

namespace Booked

variable {setup : Setup} {w w' : World} {id : Nat} {t : Task}

theorem start (store : Memory) : Booked { store } :=
  ⟨fun c => by simp [Listeners.of, registered], fun c => by simp [Listeners.pending, queued]⟩

theorem note (h : Booked w) {m : Mark} (hm : m.isQuiet = true) : Booked (w.note m) :=
  ⟨fun c => (h.of c).trans (registered_cons hm c w.trace).symm,
    fun c => (h.pending c).trans (queued_cons hm c w.trace).symm⟩

/-- Only listeners and record matter. -/
theorem same (h : Booked w) (hl : w'.listeners = w.listeners) (hm : w'.trace = w.trace) :
    Booked w' := by
  constructor <;> intro c <;> rw [hl, hm]
  · exact h.of c
  · exact h.pending c

theorem aside (h : Booked w) (ha : Aside w w') : Booked w' := by
  obtain ⟨ms, hms, hm⟩ := ha.trace
  have marked : ∀ ms : List Mark, (∀ m ∈ ms, m.isAside = true) → ∀ c,
      registered c (ms ++ w.trace) = registered c w.trace ∧
      queued c (ms ++ w.trace) = queued c w.trace := by
    intro ms
    induction ms with
    | nil => intro _ c; exact ⟨rfl, rfl⟩
    | cons m rest ih =>
      intro hms c
      have hq := Mark.isQuiet_of_isAside (hms m (by simp))
      obtain ⟨hr, hp⟩ := ih (fun m hm => hms m (by simp [hm])) c
      exact ⟨(registered_cons hq c _).trans hr, (queued_cons hq c _).trans hp⟩
  constructor <;> intro c <;> rw [ha.listeners, hm]
  · exact (h.of c).trans (marked ms hms c).1.symm
  · exact (h.pending c).trans (marked ms hms c).2.symm

theorem attach (h : Booked w) (c : String) (l : Listener) : Booked (w.attach setup c l).2 := by
  unfold World.attach
  split
  · exact h
  · split
    · constructor <;> intro c' <;> by_cases hc : c = c' <;>
        simp [updateTask, World.note, registered, queued, hc, h.of, h.pending]
    · constructor <;> intro c' <;> by_cases hc : c = c' <;>
        simp [spawn, World.count, World.note, registered, queued, hc, h.of, h.pending]

theorem detach (h : Booked w) (c : String) (l : Listener) : Booked (w.detach c l).2.2 := by
  unfold World.detach
  by_cases hl : l ∈ w.listeners.of c
  · have hof := Listeners.of_remove hl
    have hpending := Listeners.pending_remove hl
    generalize w.listeners.remove c l = r at hof hpending
    obtain ⟨left, listeners⟩ := r
    have removed : ∀ handles : Table String Nat,
        Booked (({ w with listeners, handles } : World).note (.detached c l)) := by
      intro handles
      constructor <;> intro c' <;> by_cases hc : c = c'
      · subst hc
        simpa [World.note, registered, h.of] using hof c
      · simpa [World.note, registered, hc, h.of] using hof c'
      · subst hc
        simpa [World.note, queued, h.of, h.pending] using hpending c
      · simpa [World.note, queued, hc, h.pending] using hpending c'
    cases left with
    | none => exact h
    | some n =>
      cases n with
      | zero =>
        dsimp only
        cases w.handles.get? c with
        | none => exact removed _
        | some id => exact ((removed (w.handles.erase c)).note rfl).same rfl rfl
      | succ n => exact removed _
  · rw [Listeners.remove_of_not_mem hl]
    exact h

theorem edits (h : Booked w) (e : Edits setup w w') : Booked w' := by
  induction e with
  | aside ha => exact h.aside ha
  | attach w c l => exact h.attach c l
  | detach w c name => exact h.detach c _
  | close w => exact h.same rfl rfl
  | trans _ _ ih ih' => exact ih' (ih h)

theorem publish (h : Booked w) (id : Nat) (t : Task) (s : Status) :
    Booked (w.publish id t s) := by
  unfold World.publish
  split
  · exact h
  · next slot _ =>
    split
    · have hs : Booked { w with slots := w.slots.insert t.cluster (slot.publish t.generation s) } := h.same rfl rfl
      exact hs.note rfl
    · exact h

theorem takePending (h : Booked w) (id : Nat) (c : String) : Booked (w.takePending id c).2 := by
  constructor <;> intro c' <;> by_cases hc : c = c' <;>
    simp [World.takePending, World.note, registered, queued, hc, h.of, h.pending]

theorem acts (h : Booked w) (a : Acts id t w w') : Booked w' := by
  induction a with
  | aside ha => exact h.aside ha
  | note w hm => exact h.note (Mark.isQuiet_of_isOwn hm)
  | update w => exact h.same rfl rfl
  | publish w => exact h.publish _ _ _
  | took w => exact h.takePending _ _
  | store w => exact h.same rfl rfl
  | trans _ _ ih ih' => exact ih' (ih h)

theorem finishes (h : Booked w) (hw : Finishes id t w w') : Booked w' := by
  cases hw with
  | on ha => exact h.acts ha
  | @off v s ha =>
    have hended : Booked ((v.publish id t s).moveTask id .ended) :=
      ((h.acts ha).publish _ _ _).same rfl rfl
    exact hended.note rfl

theorem turn (h : Booked w) (hw : Turn setup id t w w') : Booked w' := by
  cases hw with
  | own hf => exact h.finishes hf
  | called he => exact (h.edits he).same rfl rfl

theorem move {m : Move} (h : Booked w) (hm : w.move setup m = some w') : Booked w' := by
  cases move_cases hm with
  | edits he => exact h.edits he
  | cleared => exact h.same rfl rfl
  | @stopped id t => exact h.finishes (@stopTask_finishes id t w)
  | went ht he hc hstep => exact h.turn (hstep.turn he)

end Booked

end World

end Muster
