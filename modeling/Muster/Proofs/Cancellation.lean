import Muster.Proofs.Authors
import Muster.Proofs.Shutdown

/-!
# After a cancellation

The one step that a cancelled task has left closes its stream and ends it; no command and no call of
a listener follows the cancellation. When a call that took the task out is answered, the task has
ended. A client that was shut down starts no task, refuses what is asked of it and stays as it is.
-/
namespace Muster

/-- What a client refuses after a shutdown. An address that cannot be read is refused before. -/
def Action.isRefused : Action → Bool
  | .register text | .unregister text => (Address.ofText? text).isSome
  | .lookup _ | .view _ | .attach _ _ => true
  | .detach _ _ guarded => guarded
  | _ => false

namespace World

variable {setup : Setup} {w v w' : World} {id call : Nat} {t : Task} {m : Move} {who : Actor}
  {a : Action} {c name : String} {guarded : Bool} {p : Progress}

/-! ## After a shutdown -/

theorem begin_of_closed (h : w.closed = true) (ha : a.isRefused = true) :
    w.begin setup who a = (w, .finished (.failed .shutdown)) := by
  have changed : ∀ kind text, (Address.ofText? text).isSome = true →
      w.beginChange kind text = (w, .finished (.failed .shutdown)) := by
    intro kind text hread
    obtain ⟨a, ha⟩ := Option.isSome_iff_exists.1 hread
    simp [beginChange, Address.ofText, ha, h]
  cases a with
  | register text => exact changed .register text ha
  | unregister text => exact changed .unregister text ha
  | lookup key => exact if_pos h
  | view key => exact if_pos h
  | «attach» c l => simp [begin, World.attach, h, Answer.ofResult]
  | detach c l guarded =>
    have hguarded : guarded = true := ha
    simp [begin, beginDetach, h, hguarded]
  | _ => cases ha

/-- A call after a shutdown is answered at once, and nothing else happens. -/
theorem ask_of_closed (h : w.closed = true) (ha : a.isRefused = true)
    (hnew : w.calls.contains call = false) : w.move setup (.ask call a) =
      some { w with trace := .answered call (.failed .shutdown) :: .asked call a :: w.trace } := by
  have hbegin : (w.note (.asked call a)).begin setup (.call call) a =
      (w.note (.asked call a), .finished (.failed .shutdown)) := begin_of_closed h ha
  have herase : w.calls.erase call = w.calls :=
    Table.erase_of_get? (by simpa [Table.contains] using hnew)
  have hsettle : (w.note (.asked call a)).settleCall call (.finished (.failed .shutdown)) =
      { w with trace := .answered call (.failed .shutdown) :: .asked call a :: w.trace } := by
    simp [settleCall, note, herase]
  rw [move, if_neg (by simp [hnew]), ask, hbegin]
  exact congrArg some hsettle

/-! ## Tasks that are no longer live -/

/-- A task that its cluster does not know was cancelled or has ended. -/
theorem Supervised.isLive_of_handle (hs : Supervised w) (ht : w.tasks[id]? = some t)
    (hh : w.handles.get? t.cluster ≠ some id) : t.isLive = false := by
  refine Bool.eq_false_iff.2 fun hlive => hh ?_
  obtain ⟨he, hcan⟩ : t.isEnded = false ∧ t.cancelled = false := by simpa [Task.isLive] using hlive
  exact hs.held (charge?_of_task ht) he hcan

theorem isLive_of_move (hm : w.move setup m = some w') (ht : w.tasks[id]? = some t)
    (hlive : t.isLive = false) : ∃ t' : Task, w'.tasks[id]? = some t' ∧ t'.isLive = false := by
  obtain ⟨t', ht', -, hcan⟩ := (Lasts.move hm).task ht
  refine ⟨t', ht', ?_⟩
  cases he : t.isEnded with
  | true =>
    obtain ⟨u, hu, hend⟩ := ended_of_move hm ht he
    cases ht'.symm.trans hu
    simp [Task.isLive, hend]
  | false =>
    have hcancelled : t.cancelled = true := by simpa [Task.isLive, he] using hlive
    simp [Task.isLive, hcan hcancelled]

theorem abandon_store (w : World) (who : Actor) (stage : Stage) :
    (w.abandon who stage).store = w.store := by
  cases stage <;> rfl

/-- The last step of a cancelled task. -/
theorem stopTask_ends (ht : w.tasks[id]? = some t) : (w.stopTask id t).hasEnded id = true ∧
    (w.stopTask id t).store = (w.closeStream t).store := by
  have left : ∀ v : World, v.tasks = w.tasks → v.store = w.store →
      ((v.closeStream t).finishTask id t .stopped).hasEnded id = true ∧
      ((v.closeStream t).finishTask id t .stopped).store = (w.closeStream t).store := by
    intro v htasks hstore
    have hclose : (v.closeStream t).tasks = w.tasks := by
      unfold closeStream
      split <;> exact htasks
    constructor
    · simp [hasEnded, finishTask, moveTask, updateTask, note, (publish_others _ id t _).1, hclose, ht,
        Task.isEnded]
    · show ((v.closeStream t).publish id t .stopped).store = _
      rw [publish_store]
      unfold closeStream
      split
      · exact congrArg (fun store => Memory.close store _ _) hstore
      · exact hstore
  unfold stopTask
  dsimp only
  split
  · exact left _ (abandon_aside w _ _).tasks (abandon_store w _ _)
  · exact left w rfl rfl

/-- A cancelled task has one step left. -/
theorem step_of_cancelled (ht : w.tasks[id]? = some t) (hcan : t.cancelled = true)
    (he : t.isEnded = false) : w.move setup (.step (.task id)) = some (w.stopTask id t) := by
  simp [move, step, ht, stepTask, he, hcan]

/-! ## Detaching the last listener -/

/-- A call that takes the task of the cluster out waits for it. -/
theorem awaited_of_detach (hs : Supervised w) (hb : w.begins? m = some (who, .detach c name guarded))
    (hm : w.move setup m = some w') (hh : w.handles.get? c = some id)
    (hh' : w'.handles.get? c = none) : w'.Awaited who [id] := by
  refine awaited_of_begins hs hb hm hh fun mark v p hrun hv => ?_
  obtain ⟨-, ⟨-, hend⟩ | rfl⟩ := detach_takes (w := w.note mark) hh hrun (hv ▸ hh')
  · exact .inl hend
  · exact .inr ⟨_, rfl, List.mem_singleton_self id⟩

end World

/-! ## Main results -/

namespace Fleet

variable {setups : Nat → Setup} {f g g₀ : Fleet} {i id : Nat} {w v : World} {t : Task} {m : Move}
  {who : Actor} {c name : String} {guarded : Bool}

/-- What becomes of the tasks of a client that were cancelled, and of the client after a shutdown. -/
structure Silent (setups : Nat → Setup) (f : Fleet) (i : Nat) (w : World) : Prop where
  /-- A task that was cancelled or has ended sends no command, calls no listener and does not look
  at its stream again. -/
  quiet : ∀ (id : Nat) (t : Task), w.tasks[id]? = some t → t.isLive = false → ∀ g v, Reaches setups f g →
    g.world? i = some v → ∃ ms, v.trace = ms ++ w.trace ∧ ∀ m ∈ ms, m.author? ≠ some (.task id)
  /-- A cancelled task can go on wherever it stands; then it has ended, and all that the store
  notices is that its stream is closed. -/
  stops : ∀ (id : Nat) (t : Task), w.tasks[id]? = some t → t.cancelled = true → t.isEnded = false →
    ∃ w', w.move (setups i) (.step (.task id)) = some w' ∧ w'.hasEnded id = true ∧
      w'.store = (w.closeStream t).store ∧
      ∀ s, t.position.stream? = some s → w'.store.position? (registryKey t.cluster) s = none
  /-- A call that detaches the last listener cancels the task of the cluster. When it is answered,
  the task has ended and no stream is held by it. -/
  leaves : ∀ m who c name guarded id g₀ w₁, w.begins? m = some (who, .detach c name guarded) →
    w.handles.get? c = some id → f.move setups i m = some g₀ → g₀.world? i = some w₁ →
    w₁.handles.get? c = none →
    (∀ (id : Nat) (t : Task), w₁.tasks[id]? = some t → t.cluster = c → t.isLive = false) ∧
    ∀ g v, Unbroken setups i who g₀ g → g.world? i = some v → v.stage? who = none →
      v.hasEnded id = true ∧ ∀ key s, v.store.position? key s ≠ none →
        ∃ j k, g.Holds j k key s ∧ (j = i → k ≠ id)
  /-- A shutdown closes the client. -/
  closes : ∀ m who w', w.begins? m = some (who, .shutdown) → w.move (setups i) m = some w' →
    w'.closed = true
  /-- Then no task is live, and none is started any more. -/
  idle : w.closed = true → (∀ (id : Nat) (t : Task), w.tasks[id]? = some t → t.isLive = false) ∧
    ∀ g v, Reaches setups f g → g.world? i = some v →
      v.closed = true ∧ v.tasks.length = w.tasks.length
  /-- Whoever asks for something is refused, and nothing but the refusal is recorded. -/
  refuses : w.closed = true → ∀ a, a.isRefused = true →
    (∀ who, w.begin (setups i) who a = (w, .finished (.failed .shutdown))) ∧
    ∀ call, w.calls.contains call = false → w.move (setups i) (.ask call a) =
      some { w with trace := .answered call (.failed .shutdown) :: .asked call a :: w.trace }

theorem Reaches.quiet (hr : Reaches setups f g) (hw : f.world? i = some w)
    (ht : w.tasks[id]? = some t) (hlive : t.isLive = false) (hv : g.world? i = some v) :
    (∃ t' : Task, v.tasks[id]? = some t' ∧ t'.isLive = false) ∧
    ∃ ms, v.trace = ms ++ w.trace ∧ ∀ m ∈ ms, m.author? ≠ some (.task id) := by
  refine hr.keeps (P := fun v => (∃ t' : Task, v.tasks[id]? = some t' ∧ t'.isLive = false) ∧
    ∃ ms, v.trace = ms ++ w.trace ∧ ∀ m ∈ ms, m.author? ≠ some (.task id))
    (fun _ _ h => h) (fun k u u' m h hm => ?_) (fun u hu => ?_) hv
  · obtain ⟨⟨t', ht', hlive'⟩, ms, htrace, hms⟩ := h
    refine ⟨World.isLive_of_move hm ht' hlive', ?_⟩
    obtain ⟨ms', htrace', hms'⟩ := World.move_author hm
    refine ⟨ms' ++ ms, by simp [htrace', htrace], fun mark hmark hauthor => ?_⟩
    rcases List.mem_append.1 hmark with hnew | hold
    · obtain ⟨-, hrunning⟩ := hms' mark hnew _ hauthor
      obtain ⟨t₁, ht₁, hlive₁⟩ := hrunning id rfl
      cases ht'.symm.trans ht₁
      rw [hlive'] at hlive₁
      cases hlive₁
    · exact hms mark hold hauthor
  · cases hw.symm.trans hu
    exact ⟨⟨t, ht, hlive⟩, [], rfl, by simp⟩

/-- Cancelled tasks and clients that were shut down are silent, in every state that moves lead to. -/
theorem silent_after_cancellation (hf : Reachable setups f) (hw : f.world? i = some w) :
    Silent setups f i w := by
  have hs := (Streamed.of_reachable hf).supervised hw
  constructor
  case quiet => exact fun id t ht hlive g v hr hv => (hr.quiet hw ht hlive hv).2
  case stops =>
    intro id t ht hcan he
    obtain ⟨hend, hstore⟩ := World.stopTask_ends ht
    refine ⟨_, World.step_of_cancelled ht hcan he, hend, hstore, fun s hstream => ?_⟩
    rw [hstore]
    simp [World.closeStream, hstream, Memory.position?_close]
  case leaves =>
    intro m who c name guarded id g₀ w₁ hb hh next hw₁ hh'
    obtain ⟨u, w', hu, hm, -, hi, -⟩ := move_cases next
    cases hw.symm.trans hu
    cases hw₁.symm.trans hi
    have hreach := hf.reaches (.move .refl next)
    have hs₁ := (Streamed.of_reachable hreach).supervised hw₁
    refine ⟨fun k t ht hc => hs₁.isLive_of_handle ht ?_, fun g v hr hv hdone => ?_⟩
    · rw [hc, hh']
      simp
    · have hwait := World.awaited_of_detach hs hb hm hh hh'
      have hend := hr.ended hreach hw₁ hwait hv hdone
      refine ⟨hend, fun key s ho => ?_⟩
      rw [store_of_world? hv] at ho
      obtain ⟨j, k, hold⟩ := tenanted_of_reachable (hreach.reaches hr.reaches) key s ho
      -- Whoever holds a stream has not ended, so it is not the task that was waited for.
      refine ⟨j, k, hold, ?_⟩
      rintro rfl rfl
      rw [hold.live hv] at hend
      cases hend
  case closes => exact fun m who w' hb hm => (World.closed_of_shutdown hb hm).1
  case idle =>
    intro hclosed
    refine ⟨fun id t ht => hs.isLive_of_handle ht ?_, fun g v hr hv => ?_⟩
    · simp [Table.get?, hs.shut hclosed, Table.find?]
    · obtain ⟨hlasts, hstays⟩ := hr.lasts hw hv
      exact ⟨hstays hclosed, hlasts.length hclosed⟩
  case refuses =>
    intro hclosed a ha
    exact ⟨fun who => World.begin_of_closed hclosed ha,
      fun call hnew => World.ask_of_closed hclosed ha hnew⟩

/-- The last listener leaves while its task waits for messages, and then a lookup is refused. -/
theorem silent_after_cancellation_detach : ∃ f w g₀ g v h u,
    Reachable (fun _ => .plain "me@here") f ∧ f.world? 0 = some w ∧
    f.move (fun _ => .plain "me@here") 0 (.ask 1 (.detach "c" "a" true)) = some g₀ ∧
    Unbroken (fun _ => .plain "me@here") 0 (.call 1) g₀ g ∧ g.world? 0 = some v ∧
    (w.store.position? "registry.redis.c" 0).isSome = true ∧ v.hasEnded 0 = true ∧
    (∀ key s, v.store.position? key s ≠ none → ∃ j k, g.Holds j k key s ∧ (j = 0 → k ≠ 0)) ∧
    Reaches (fun _ => .plain "me@here") g h ∧ h.world? 0 = some u ∧
    (∃ ms, u.trace = ms ++ v.trace ∧ ∀ m ∈ ms, m.author? ≠ some (.task 0)) ∧
    u.begin (.plain "me@here") (.call 3) (.lookup "k") = (u, .finished (.failed .shutdown)) := by
  obtain ⟨f, hf, hp⟩ := (Option.any_eq_true _ _).1 (show
    ((start .usual 1).run (fun _ => .plain "me@here")
      [(0, .ask 0 (.attach "c" "a")), (0, .step (.task 0))]).any (fun f => (f.world? 0).any fun w =>
        w.begins? (.ask 1 (.detach "c" "a" true)) == some (.call 1, .detach "c" "a" true) &&
        w.handles.get? "c" == some 0 && (w.store.position? "registry.redis.c" 0).isSome &&
        (f.move (fun _ => .plain "me@here") 0 (.ask 1 (.detach "c" "a" true))).any fun g₀ =>
          (g₀.world? 0).any (fun w₁ => w₁.handles.get? "c" == none) &&
          (g₀.runUnbroken (fun _ => .plain "me@here") 0 (.call 1)
            [(0, .step (.task 0)), (0, .step (.call 1))]).any fun g =>
            (g.world? 0).any fun v => v.stage? (.call 1) == none &&
              (v.tasks[0]?).any (fun t => !t.isLive) &&
              (g.run (fun _ => .plain "me@here") [(0, .ask 2 .shutdown)]).any fun h =>
                (h.world? 0).any fun u => u.closed) = true by decide +kernel)
  simp only [Option.any_eq_true, Bool.and_eq_true, Bool.not_eq_true', beq_iff_eq] at hp
  obtain ⟨w, hw, ⟨⟨hb, hh⟩, hopen⟩, g₀, next, ⟨w₁, hw₁, hh'⟩, g, hg, v, hv,
    ⟨hdone, t, ht, hlive⟩, h, hrun, u, hu, hclosed⟩ := hp
  have hreach := reachable_of_run rfl hf
  have hunbroken := unbroken_of_run hg
  have hreach' := hreach.reaches ((Reaches.refl.move next).trans hunbroken.reaches)
  obtain ⟨hended, hheld⟩ := ((silent_after_cancellation hreach hw).leaves _ _ _ _ _ _ _ _ hb hh next
    hw₁ hh').2 g v hunbroken hv hdone
  have hquiet := (silent_after_cancellation hreach' hv).quiet 0 t ht hlive h u (reaches_of_run hrun) hu
  obtain ⟨hrefused, -⟩ := (silent_after_cancellation (hreach'.reaches (reaches_of_run hrun)) hu).refuses
    hclosed (.lookup "k") rfl
  exact ⟨f, w, g₀, g, v, h, u, hreach, hw, next, hunbroken, hv, hopen, hended, hheld,
    reaches_of_run hrun, hu, hquiet, hrefused _⟩

end Fleet

end Muster
