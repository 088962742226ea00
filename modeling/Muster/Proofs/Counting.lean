import Mathlib.Algebra.Ring.Nat
import Muster.Proofs.Budgets

/-!
# Counting drops

How far a task counts the drops in a row. With a budget it never counts beyond that, so a counter
that holds the budget holds every sum that a drop takes. Without one nothing bounds the count: a
task whose store cannot be reached (`World.Stranded`) counts one more in each round of an attempt
and a wait, and a counter of any width overflows in the end (`Fleet.drops_counted`).
-/
namespace Muster

namespace World

variable {setup : Setup} {w : World} {id n due : Nat} {t : Task}

/-- The first task stands here after so many drops in a row, and its store cannot be reached. -/
structure Stranded (w : World) (n : Nat) (p : Position) : Prop where
  outage : w.store.outage.isSome = true
  unheld : w.holding = []
  task : ∃ t, w.tasks[0]? = some t ∧ t.position = p ∧ t.cancelled = false ∧ t.failures = n ∧
    t.backoff.patience = none

/-- No stream is opened in an outage. -/
theorem openStream_refused (h : w.store.outage.isSome = true) (who : Actor) (key : String) :
    ∃ f v, w.openStream who key = (.error f, v) ∧ v.store = w.store ∧ v.holding = w.holding ∧
      v.tasks = w.tasks := by
  rcases perform_cases w who (.subscribe key) fun s => s.subscribe key with
    ⟨f, faults, hrefused⟩ | ⟨a, store, faults, hok, -⟩
  · exact ⟨f, _, hrefused, rfl, rfl, rfl⟩
  · obtain ⟨fault, hfault⟩ := Option.isSome_iff_exists.1 h
    simp [Memory.subscribe, Memory.attempt, hfault] at hok

/-- Without a budget a drop is counted, whatever the count is, and the task waits. -/
theorem dropAttempt_unlimited (hmax : setup.config.restart.maxAttempts = 0)
    (hpatience : t.backoff.patience = none) :
    ∃ due, (w.dropAttempt setup id t).store = w.store ∧
      (w.dropAttempt setup id t).holding = w.holding ∧
      (w.dropAttempt setup id t).tasks = w.tasks.modify id fun u => { u with
        failures := t.failures + 1, backoff := t.backoff.next.2, position := .waiting due } := by
  rcases dropAttempt_cases setup w id t with ⟨⟨hpos, -⟩ | hlimit, -⟩ | ⟨-, hdrop⟩
  · omega
  · exact absurd hpatience hlimit
  · refine ⟨w.clock + setup.delay w.draws t.backoff.next.1, ?_⟩
    rw [hdrop]
    rcases Ruled.publish_cases (World.updateTask { w with draws := w.draws + 1 } id _) id t
      .reconnecting with ⟨slot, -, -, heq⟩ | ⟨-, heq⟩ <;> rw [heq] <;> exact ⟨rfl, rfl, rfl⟩

/-- One attempt: it is dropped, and the task waits. -/
theorem Stranded.drop (h : Stranded w n (.opening .arriving))
    (hmax : setup.config.restart.maxAttempts = 0) :
    ∃ w' due, w.move setup (.step (.task 0)) = some w' ∧ Stranded w' (n + 1) (.waiting due) := by
  obtain ⟨t, ht, hp, hc, rfl, hpatience⟩ := h.task
  obtain ⟨f, v, hopen, hstore, hholding, htasks⟩ :=
    openStream_refused h.outage (.task 0) (registryKey t.cluster)
  have hstep : w.move setup (.step (.task 0)) = some (v.dropAttempt setup 0 t) := by
    simp [move, step, ht, stepTask, Task.isEnded, hp, hc, advanceTask, passage, h.unheld, hopen]
  obtain ⟨due, hstore', hholding', htasks'⟩ := dropAttempt_unlimited hmax hpatience
  refine ⟨_, due, hstep, ?_, hholding'.trans (hholding.trans h.unheld), ?_⟩
  · rw [hstore', hstore]
    exact h.outage
  · rw [htasks', htasks, List.getElem?_modify_eq, ht]
    exact ⟨_, rfl, rfl, hc, rfl, hpatience⟩

/-- The wait after it: once it is over, the task is about to open its stream again. -/
theorem Stranded.wait (h : Stranded w n (.waiting due)) (setup : Setup) :
    ∃ w', World.move setup { w with clock := w.clock + due } (.step (.task 0)) = some w' ∧
      Stranded w' n (.opening .arriving) := by
  obtain ⟨t, ht, hp, hc, hn, hpatience⟩ := h.task
  refine ⟨(World.count { w with clock := w.clock + due } .subscriptionRestarts).moveTask 0
    (.opening .arriving), ?_, h.outage, h.unheld, { t with position := .opening .arriving }, ?_,
    rfl, hc, hn, hpatience⟩
  · simp [move, step, ht, stepTask, Task.isEnded, hp, hc, advanceTask]
  · simp [moveTask, World.updateTask, World.count, ht]

end World

namespace Fleet

variable {setups : Nat → Setup} {f : Fleet} {i : Nat} {w w' : World} {m : Move}

/-- A client of a fleet may move as it may alone. -/
theorem Reachable.move_of_world (hf : Reachable setups f) (hw : f.world? i = some w)
    (hm : w.move (setups i) m = some w') :
    ∃ g, Reachable setups g ∧ g.world? i = some w' := by
  have hnext : f.move setups i m = some { store := w'.store, worlds := f.worlds.set i w' } := by
    simp [move, hw, hm]
  obtain ⟨v, v', hv, hm', -, hi, -⟩ := move_cases hnext
  cases hv.symm.trans hw
  cases hm'.symm.trans hm
  exact ⟨_, hf.reaches (.move .refl hnext), hi⟩

/-- Without a budget, a task on a store that cannot be reached counts as far as one likes. -/
theorem exists_stranded (hmax : (setups i).config.restart.maxAttempts = 0) (n : Nat) :
    ∃ f w, Reachable setups f ∧ f.world? i = some w ∧ w.Stranded n (.opening .arriving) := by
  induction n with
  | zero =>
    have hstart : Reachable setups (start .usual (i + 1)) := ⟨.usual, i + 1, rfl, .refl⟩
    have hw : (start .usual (i + 1)).world? i = some { store := .usual } := by
      simp [start, world?]
    obtain ⟨f, hf, hw⟩ := hstart.move_of_world hw (m := .ask 0 (.setUnavailable true)) rfl
    obtain ⟨g, hg, hw⟩ := hf.move_of_world hw (m := .ask 1 (.attach "c" "l")) rfl
    exact ⟨g, _, hg, hw, rfl, rfl, _, rfl, rfl, rfl, rfl, rfl⟩
  | succ n ih =>
    -- One more round: the attempt, the time of the wait, and the step that ends it.
    obtain ⟨f, w, hf, hw, hstranded⟩ := ih
    obtain ⟨v, due, hdrop, hwaits⟩ := hstranded.drop hmax
    obtain ⟨g, hg, hv⟩ := hf.move_of_world hw hdrop
    obtain ⟨h, hh, hu⟩ := hg.move_of_world hv (m := .elapse due) rfl
    obtain ⟨w', hretry, hopens⟩ := hwaits.wait (setups i)
    obtain ⟨k, hk, hw'⟩ := hh.move_of_world hu hretry
    exact ⟨k, w', hk, hw', hopens⟩

/-- So the next drop takes a sum as large as one likes. -/
theorem exists_drop (hmax : (setups i).config.restart.maxAttempts = 0) (n : Nat) :
    ∃ f w w' t t', Reachable setups f ∧ f.world? i = some w ∧ w.tasks[0]? = some t ∧
      t.position ≠ .ended ∧ t.failures = n ∧ w.move (setups i) (.step (.task 0)) = some w' ∧
      w'.tasks[0]? = some t' ∧ t'.failures = n + 1 := by
  obtain ⟨f, w, hf, hw, hstranded⟩ := exists_stranded hmax n
  obtain ⟨w', due, hdrop, hwaits⟩ := hstranded.drop hmax
  obtain ⟨t, ht, hp, -, hn, -⟩ := hstranded.task
  obtain ⟨t', ht', -, -, hn', -⟩ := hwaits.task
  exact ⟨f, w, w', t, t', hf, hw, ht, by simp [hp], hn, hdrop, ht', hn'⟩

/-- A running task has counted its drops in a row. With a budget, the sum that its next drop takes
is at most that, and fits into 32 bits as the budget does; without one, there is no number that the
sum does not reach. -/
theorem drops_counted (hwidth : (setups i).config.restart.maxAttempts < 2 ^ 32) :
    (∀ {f : Fleet} {id : Nat} {w : World} {t : Task}, Reachable setups f → f.world? i = some w →
      w.tasks[id]? = some t → t.position ≠ .ended →
      t.failures = (setups i).drops id w.trace ∧
      (0 < (setups i).config.restart.maxAttempts →
        t.failures + 1 ≤ (setups i).config.restart.maxAttempts ∧ t.failures + 1 < 2 ^ 32)) ∧
    ((setups i).config.restart.maxAttempts = 0 → ∀ n, ∃ f w w' t t', Reachable setups f ∧
      f.world? i = some w ∧ w.tasks[0]? = some t ∧ t.position ≠ .ended ∧ t.failures = n ∧
      w.move (setups i) (.step (.task 0)) = some w' ∧ w'.tasks[0]? = some t' ∧
      t'.failures = n + 1) := by
  refine ⟨fun hf hw ht hne => ?_, exists_drop⟩
  obtain ⟨hcount, -, hbudget⟩ := ((ledger_of_reachable hf hw).accounts ht).running hne
  refine ⟨hcount, fun hpos => ?_⟩
  have hleft := hbudget hpos
  omega

/-- With a budget that takes all 32 bits the second drop is counted; with none the sum reaches every
power of two. -/
theorem drops_counted_widest :
    (∃ f w t, Reachable (fun _ => .limited "me@here" (2 ^ 32 - 1)) f ∧ f.world? 0 = some w ∧
      w.tasks[0]? = some t ∧ t.position ≠ .ended ∧ t.failures = 1 ∧ t.failures + 1 < 2 ^ 32) ∧
    ∀ k, ∃ f w t, Reachable (fun _ => .limited "me@here" 0) f ∧ f.world? 0 = some w ∧
      w.tasks[0]? = some t ∧ t.position ≠ .ended ∧ t.failures = 2 ^ k := by
  constructor
  · obtain ⟨f, w, hf, hw, hp⟩ := exists_of_run (fun _ => .limited "me@here" (2 ^ 32 - 1)) .usual 1 0
      [(0, .ask 0 (.setUnavailable true)), (0, .ask 1 (.attach "c" "l")), (0, .step (.task 0))]
      (fun w => (w.tasks[0]?).any fun t => !t.isEnded && t.failures == 1) rfl (by decide +kernel)
    obtain ⟨t, ht, hp⟩ := (Option.any_eq_true _ _).1 hp
    simp only [Bool.and_eq_true, Bool.not_eq_true', beq_iff_eq] at hp
    have hne : t.position ≠ .ended := fun hend => by simp [Task.isEnded, hend] at hp
    have hfits := ((@drops_counted (fun _ => .limited "me@here" (2 ^ 32 - 1)) 0 (by decide)).1
      hf hw ht hne).2 (by decide)
    exact ⟨f, w, t, hf, hw, ht, hne, hp.2, hfits.2⟩
  · intro k
    obtain ⟨f, w, -, t, -, hf, hw, ht, hne, hn, -⟩ :=
      (@drops_counted (fun _ => .limited "me@here" 0) 0 (by decide)).2 rfl (2 ^ k)
    exact ⟨f, w, t, hf, hw, ht, hne, hn⟩

/-- A task without a budget, on a store that stays away, overflows 32 bits. -/
theorem unlimited_overflows :
    ∃ f w w' t t', Reachable (fun _ => .limited "me@here" 0) f ∧ f.world? 0 = some w ∧
      w.tasks[0]? = some t ∧ t.position ≠ .ended ∧ t.failures = 2 ^ 32 - 1 ∧
      w.move (.limited "me@here" 0) (.step (.task 0)) = some w' ∧ w'.tasks[0]? = some t' ∧
      t'.failures = 2 ^ 32 :=
  @exists_drop (fun _ => .limited "me@here" 0) 0 rfl (2 ^ 32 - 1)

end Fleet

end Muster
