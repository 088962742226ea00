import Mathlib.Data.List.TakeWhile
import Muster.Proofs.Cancellation
import Muster.Schedule

/-!
# Schedules are runs

A schedule lets an actor go on without another look at its cancellation, and a fleet does not. The
two agree: a task that cancels itself within one of its own calls stands before the end of a task
that has not ended (`begin_cancelled`), so it cannot go on before it is stopped. Hence a command of
a scenario comes to at most one call that begins, then moves that begin none (`carryOut_cases`), and
whatever holds of every reachable client holds throughout every scenario (`reachable_of_script`).
A schedule whose patience runs out stops in such a state too.
-/
namespace Muster

namespace World

variable {setup : Setup} {w v w' : World} {id : Nat} {t : Task} {who : Actor} {p : Progress}
  {stage : Stage} {a : Action}

/-! ## Who is cancelled -/

/-- The task of this number was cancelled. -/
def IsCancelled (w : World) (id : Nat) : Prop :=
  ∃ t : Task, w.tasks[id]? = some t ∧ t.cancelled = true

theorem isCancelled_iff (ht : w.tasks[id]? = some t) :
    w.IsCancelled id ↔ t.cancelled = true := by
  simp [IsCancelled, ht]

/-- The task is not cancelled meanwhile. -/
def Spares (id : Nat) (w w' : World) : Prop := w'.IsCancelled id → w.IsCancelled id

namespace Spares

theorem same (h : w'.tasks = w.tasks) : Spares id w w' := fun ⟨t, ht, hc⟩ => ⟨t, h ▸ ht, hc⟩

theorem trans {a b c : World} (h : Spares id a b) (h' : Spares id b c) : Spares id a c :=
  fun hc => h (h' hc)

theorem aside (h : Aside w w') : Spares id w w' := same h.tasks

theorem updateTask (w : World) (j : Nat) (f : Task → Task)
    (hf : ∀ u, (f u).cancelled = u.cancelled) : Spares id w (w.updateTask j f) := by
  rintro ⟨t, ht, hc⟩
  simp only [World.updateTask, List.getElem?_modify] at ht
  obtain ⟨u, hu, rfl⟩ := Option.map_eq_some_iff.1 ht
  refine ⟨u, hu, ?_⟩
  split at hc
  · exact (hf u).symm.trans hc
  · exact hc

theorem cancel (w : World) {j : Nat} (hj : j ≠ id) : Spares id w (w.cancel j) := by
  rintro ⟨t, ht, hc⟩
  exact ⟨t, by simpa [World.cancel, World.note, World.updateTask, hj] using ht, hc⟩

/-- Whoever comes cancels nobody; a task that is started is a new one. -/
theorem attach (w : World) (c : String) (l : Listener) :
    Spares id w (w.attach setup c l).2 := by
  unfold World.attach
  split
  · exact same rfl
  · split
    · exact (same rfl).trans (updateTask _ _ _ fun _ => rfl)
    · rintro ⟨t, ht, hc⟩
      simp only [spawn, World.note, World.count, List.getElem?_append] at ht
      split at ht
      · exact ⟨t, ht, hc⟩
      · rw [List.getElem?_singleton] at ht
        split at ht
        · cases ht
          cases hc
        · cases ht

theorem acts (h : Acts id t w w') : Spares id w w' := by
  induction h with
  | aside ha => exact aside ha
  | update w f _ _ hcan => exact updateTask w id f hcan
  | publish w => exact same (publish_others w id t _).1
  | note | took | store => exact same rfl
  | trans _ _ ih ih' => exact ih.trans ih'

theorem settleAction {s : Nat} {pass : Pass} {l : Listener} {rest : List Listener}
    {name label : String} {more : List (String × Action)} {fault : Option Fault} :
    Spares id w (w.settleAction id s pass l rest name label more fault p) := by
  cases p with
  | finished answer => exact (same rfl).trans (updateTask (w.note _) id _ fun _ => rfl)
  | paused stage => exact updateTask w id _ fun _ => rfl

/-- A call that goes on attaches an updater at most. -/
theorem resume (h : w.resume setup who stage = some (v, p)) : Spares id w v := by
  cases stage with
  | replied load fields g =>
    rcases throughGate_cases h with hr | hr
    · cases hr
      exact same rfl
    · have hv : v = (w.takeSnapshot setup load fields).1 := congrArg Prod.fst hr
      rw [hv]
      unfold takeSnapshot
      dsimp only
      split
      · next ha =>
        have hattach := congrArg (fun r => Spares id w r.2) ha
        exact (hattach ▸ (same rfl).trans (attach _ _ _)).trans (aside (failLoad_aside _ _ _))
      · next ha =>
        have hattach := congrArg (fun r => Spares id w r.2) ha
        exact (hattach ▸ (same rfl).trans (attach _ _ _)).trans (aside (awaitStart_aside _ _))
  | _ => exact aside (resume_aside (by simp) h)

end Spares

/-- Whoever leaves spares the task, or takes it out. -/
theorem detach_spares_or_takes (id : Nat) (w : World) (c : String) (l : Listener) :
    Spares id w (w.detach c l).2.2 ∨
      w.handles.get? c = some id ∧ (w.detach c l).2.2.handles.get? c = none := by
  unfold detach
  split
  · exact .inl (.same rfl)
  · dsimp only
    split
    · exact .inl (.same rfl)
    · next k hh =>
      by_cases hk : k = id
      · exact .inr ⟨hk ▸ hh, by simp [cancel, note, updateTask]⟩
      · exact .inl (.trans (.same rfl) (.cancel _ hk))
  · exact .inl (.same rfl)

/-- A call that waits for a task which has not ended cannot go on. -/
theorem resume_of_awaited {k : Nat} {ids : List Nat} (h : stage.awaited = k :: ids)
    (hk : w.hasEnded k = false) : w.resume setup who stage = none := by
  cases stage with
  | joining j =>
    cases h
    simp [resume, hk]
  | draining ids' =>
    have hids : ids' = k :: ids := h
    simp [resume, hids, hk]
  | _ => cases h

/-- Whoever waits for tasks waits for one that has not ended. -/
theorem drain_cases {ids : List Nat} (h : w.drain ids = (v, p)) : v = w ∧
    ((∀ id ∈ ids, w.hasEnded id = true) ∨
      ∃ k rest, p = .paused (.draining (k :: rest)) ∧ w.hasEnded k = false) := by
  unfold drain at h
  split at h
  · next hall =>
    cases h
    exact ⟨rfl, .inl (List.dropWhile_eq_nil_iff.1 hall)⟩
  · next hleft =>
    cases h
    refine ⟨rfl, .inr ?_⟩
    have hk := List.head_dropWhile_not w.hasEnded hleft
    exact ⟨_, _, by rw [List.cons_head_tail hleft], hk⟩

/-- A running task that a call cancels has its call wait: the call stands before the end of a task
that has not ended. -/
theorem begin_cancelled (hs : Supervised w) (hw : ¬ w.IsCancelled id) (he : w.hasEnded id = false)
    (h : w.begin setup who a = (v, p)) (hcut : v.IsCancelled id) :
    ∃ stage k rest, p = .paused stage ∧ stage.awaited = k :: rest ∧ v.hasEnded k = false := by
  have spared : ∀ {u : World}, Spares id w u → u ≠ v := fun hu heq => hw (hu (heq ▸ hcut))
  have hedits := @begin_edits setup w who a
  have aside := fun ha : a.isEdit = false => @begin_aside setup w who _ ha
  rw [h] at hedits aside
  obtain ⟨t, ht, hlive⟩ : ∃ t, w.tasks[id]? = some t ∧ t.isEnded = false := by
    cases ht : w.tasks[id]? with
    | none => simp [hasEnded, ht] at he
    | some t => exact ⟨t, rfl, by simpa [hasEnded, ht] using he⟩
  have hrun : v.hasEnded id = false := by
    obtain ⟨t', ht', -, hp, -⟩ := (Elsewhere.edits hedits).task t ht
    simpa [hasEnded, ht', Task.isEnded, hp] using hlive
  cases a with
  | «attach» c l =>
    cases h
    exact absurd rfl (spared (.attach w c _))
  | detach c l guarded =>
    have hv : w = v ∨ (w.detach c (.user l)).2.2 = v := by
      simp only [begin, beginDetach] at h
      split at h
      · exact .inl (congrArg Prod.fst h)
      · split at h <;> next hd => exact .inr (by rw [hd]; exact congrArg Prod.fst h)
    rcases hv with rfl | rfl
    · exact absurd hcut hw
    · rcases detach_spares_or_takes id w c (.user l) with hsp | ⟨hh, hgone⟩
      · exact absurd rfl (spared hsp)
      · obtain ⟨-, ⟨-, hend⟩ | rfl⟩ := detach_takes hh h hgone
        · exact absurd hend (by simpa using hrun)
        · exact ⟨_, id, [], rfl, rfl, hrun⟩
  | shutdown =>
    obtain ⟨rfl, hended | ⟨k, rest, rfl, hk⟩⟩ := drain_cases h
    · -- The task had a handle, so that the shutdown waits for it.
      have hcan : t.cancelled = false := by simpa [isCancelled_iff ht] using hw
      have hhandle := hs.held (charge?_of_task ht) hlive hcan
      have hend := hended id (List.mem_map.2 ⟨_, Table.mem_of_get? hhandle, rfl⟩)
      exact absurd hend (by simpa using hrun)
    · exact ⟨_, k, rest, rfl, rfl, hk⟩
  | _ => exact absurd rfl (spared (.aside (aside rfl)))

/-! ## Without another look -/

/-- An actor that does not look at its cancellation goes on as one that does. -/
def Unhindered (setup : Setup) (w : World) (who : Actor) : Prop :=
  ∀ w', w.advance setup who = some w' → w.step setup who = some w'

theorem Unhindered.of_call (w : World) (call : Nat) : w.Unhindered setup (.call call) :=
  fun _ h => h

theorem Unhindered.of_task (hcan : ∀ t, w.tasks[id]? = some t → t.isEnded = false →
    t.cancelled = true → w.advance setup (.task id) = none) : w.Unhindered setup (.task id) := by
  intro w' h
  obtain ⟨t, ht, hadv⟩ := Option.bind_eq_some_iff.1 h
  have hlive : t.isEnded = false := Task.isEnded_of_ne fun hend => by
    simp [advanceTask, hend] at hadv
  have hc : t.cancelled = false := Bool.eq_false_iff.2 fun hc => by
    rw [hcan t ht hlive hc] at h
    cases h
  simpa [step, ht, stepTask, hlive, hc] using hadv

theorem position_of_moveTask {q : Position} {t' : Task}
    (h : (w.moveTask id q).tasks[id]? = some t') : t'.position = q := by
  simp only [moveTask, updateTask, List.getElem?_modify_eq] at h
  obtain ⟨u, -, rfl⟩ := Option.map_eq_some_iff.1 h
  rfl

theorem hasEnded_moveTask {k : Nat} {q : Position} (hq : q ≠ .ended) (hk : w.hasEnded k = false) :
    (w.moveTask id q).hasEnded k = false := by
  simp only [hasEnded, moveTask, updateTask, List.getElem?_modify] at hk ⊢
  cases ht : w.tasks[k]? with
  | none => simp [ht] at hk
  | some t =>
    simp only [ht, Option.all_some] at hk
    split
    · exact Task.isEnded_of_ne hq
    · exact hk

theorem advance_of_awaiting {s : Nat} {pass : Pass} {l : Listener} {rest : List Listener}
    {name label : String} {more : List (String × Action)} {fault : Option Fault}
    (ht : w.tasks[id]? = some t)
    (hp : t.position = .calling s pass l (.awaiting name label stage more fault) rest)
    (hstays : w.resume setup (.task id) stage = none) : w.advance setup (.task id) = none := by
  simp [advance, ht, advanceTask, hp, resumeCallback, hstays]

/-- A task that a listener of its own has cancelled waits. -/
theorem Called.waits (hs : Supervised w) (ht : w.tasks[id]? = some t) (hlive : t.isEnded = false)
    (hcan : t.cancelled = false) (h : Called setup id t w w') (hcut : w'.IsCancelled id) :
    w'.advance setup (.task id) = none := by
  have hw : ¬ w.IsCancelled id := by simp [isCancelled_iff ht, hcan]
  cases h with
  | @acted s pass l name label a more fault rest v p hbegin =>
    have hnote : Rests w (w.note (.doing name label)) := .note w _
    have hrun : (w.note (.doing name label)).hasEnded id = false := by
      simp [hasEnded, note, ht, hlive]
    obtain ⟨stage, k, ids, rfl, hwait, hk⟩ :=
      begin_cancelled (hs.rests hnote) hw hrun hbegin (Spares.settleAction hcut)
    obtain ⟨t', ht', -⟩ := hcut
    exact advance_of_awaiting ht' (position_of_moveTask (w := v) ht')
      (resume_of_awaited hwait (hasEnded_moveTask (by simp) hk))
  | resumed hresume => exact absurd (Spares.resume hresume (Spares.settleAction hcut)) hw

/-- Who has made a step need not look at its cancellation before the next. -/
theorem unhindered_of_step (hs : Supervised w) (h : w.step setup who = some w') :
    w'.Unhindered setup who := by
  cases who with
  | call call => exact .of_call w' call
  | task id =>
    obtain ⟨t, ht, h⟩ := Option.bind_eq_some_iff.1 h
    refine .of_task fun t' ht' hlive' hc => ?_
    unfold stepTask at h
    split at h
    · cases h
    · next he =>
      have hlive : t.isEnded = false := by simpa using he
      split at h
      · cases h
        have hend := (stopTask_ends (t := t) ht).1
        simp [hasEnded, ht', hlive'] at hend
      · next hcan =>
        rcases (advanceTask_cases h).finishes_or_called hlive with hf | hcalled
        · cases hf with
          | on ha => exact absurd ((isCancelled_iff ht).1 (Spares.acts ha ⟨t', ht', hc⟩)) hcan
          | off => exact absurd (Task.isEnded_iff.2 (position_of_moveTask ht')) (by simp [hlive'])
        · exact hcalled.waits hs ht hlive (by simpa using hcan) ⟨t', ht', hc⟩

/-! ## Numbers of calls -/

theorem eq_ask_of_begins {m : Move} {call : Nat} (h : w.begins? m = some (.call call, a)) :
    m = .ask call a := by
  unfold begins? at h
  split at h
  · split at h <;> cases h
    rfl
  · obtain ⟨t, -, h⟩ := Option.bind_eq_some_iff.1 h
    split at h
    · cases h
    · obtain ⟨b, -, h⟩ := Option.map_eq_some_iff.1 h
      cases h
  · cases h

/-- A call that is in progress after a move was in progress before, unless the move began it. -/
theorem calls_of_move {m : Move} {call : Nat} (hs : Supervised w) (hp : w.Proper)
    (hm : w.move setup m = some w') (hnew : ∀ a, m ≠ .ask call a)
    (h : w'.calls.contains call = true) : w.calls.contains call = true := by
  have stage : ∀ u : World, u.calls.contains call = (u.stage? (.call call)).isSome := fun _ => rfl
  rw [stage] at h ⊢
  cases move_course hp hm with
  | @begun who a mark v p hb hnone hmark hrun hset =>
    have hne : who ≠ .call call := fun hwho => hnew a (eq_ask_of_begins (hwho ▸ hb))
    have hnote : Supervised (w.note mark) := hs.rests (.note w mark)
    rwa [hset.others _ hne, begin_stages hnote hrun] at h
  | @resumed who stage v p hstep hst hrun hset =>
    by_cases hne : who = .call call
    · rw [← hne, hst]
      rfl
    · rwa [hset.others _ hne, resume_stages hs hrun] at h
  | @dropped who stage hd hst hmine hothers hc =>
    by_cases hne : who = .call call
    · rw [← hne, hst]
      rfl
    · rwa [hothers _ hne] at h
  | apart hstages =>
    have hsome := congrArg Option.isSome (hstages (.call call))
    simp only [Option.isSome_map] at hsome
    rwa [← hsome]

end World

/-- The move begins a call. -/
def Move.asks : Move → Bool
  | .ask _ _ => true
  | _ => false

namespace Fleet

variable {setup : Setup} {setups : Nat → Setup} {f g : Fleet} {i call : Nat} {m : Move}
  {u v w w' : World}

theorem Guarded.calls (hr : Guarded setups (fun _ m _ _ => m.asks = false) f g)
    (hf : Reachable setups f) (hw : f.world? i = some w) (hv : g.world? i = some v) (h : v.calls.contains call = true) :
    w.calls.contains call = true := by
  induction hr generalizing v with
  | refl =>
    cases hw.symm.trans hv
    exact h
  | @move g k j m past next hno ih =>
    obtain ⟨u, u', hu, hm, -, hj, hothers⟩ := move_cases next
    have hreach := hf.reaches past.reaches
    by_cases hji : j = i
    · subst hji
      cases hj.symm.trans hv
      exact ih hu (World.calls_of_move (.of_reachable hreach hu) (kept_of_reachable hreach hu).2 hm
        (by rintro a rfl; cases hno) h)
    · rw [hothers i hji] at hv
      obtain ⟨x, hx, rfl⟩ := Option.map_eq_some_iff.1 hv
      exact ih hx h

/-- A client alone with its store. -/
def only (w : World) : Fleet := { store := w.store, worlds := [w] }

theorem only_move (h : w.move setup m = some w') :
    (only w).move (fun _ => setup) 0 m = some (only w') := by
  simp [move, world?, only, h]

/-- What a client that is alone comes to without a call that begins. -/
def Continues (setup : Setup) (w w' : World) : Prop :=
  Guarded (fun _ => setup) (fun _ m _ _ => m.asks = false) (only w) (only w')

namespace Continues

theorem refl (w : World) : Continues setup w w := Guarded.refl

theorem trans (h : Continues setup u v) (h' : Continues setup v w) : Continues setup u w :=
  Guarded.trans h h'

theorem move (h : w.move setup m = some w') (hno : m.asks = false) : Continues setup w w' :=
  Guarded.refl.move (only_move h) hno

theorem supervised (h : Continues setup w w') (hs : w.Supervised) : w'.Supervised :=
  (Guarded.reaches h).keeps_own (i := 0) (P := World.Supervised)
    (fun _ _ h => h.rests (.quiet rfl rfl rfl rfl rfl)) (fun _ _ _ h => h.move)
    (fun v hv => by cases hv; exact hs) (w := w') rfl

end Continues

end Fleet

/-! ## What a schedule does -/

namespace Schedule

open Fleet

variable {setup : Setup} {s : Schedule} {a : Actor} {id n : Nat} {settles : Bool} {c : Command}

@[simp] theorem adopt_world (setup : Setup) (s : Schedule) (w : World) :
    (s.adopt setup w).world = w := rfl

@[simp] theorem park_world (setup : Setup) (s : Schedule) (a : Actor) :
    (s.park setup a).world = s.world := by
  unfold park
  split <;> rfl

/-- The invariant of a turn: whoever runs need not look at its cancellation. -/
theorem run_continues (hs : s.world.Supervised) (ha : s.world.Unhindered setup a) (n : Nat) :
    Continues setup s.world (run setup a n s).world := by
  induction n generalizing s with
  | zero =>
    rw [run, park_world]
    exact .refl _
  | succ n ih =>
    unfold run
    split
    · rw [park_world]
      exact .refl _
    · next w hadv =>
      -- The step that was made without a look is one with it, so the next needs none either.
      have hstep := ha w hadv
      have hm : s.world.move setup (.step a) = some w := hstep
      have hnext := @ih (s.adopt setup w) (hs.move hm) (World.unhindered_of_step hs hstep)
      exact (Continues.move hm rfl).trans hnext

theorem turn_continues (hs : s.world.Supervised) (a : Actor) :
    Continues setup s.world (s.turn setup a).world := by
  unfold turn
  split
  · rw [park_world]
    exact .refl _
  · next w hstep =>
    have hm : s.world.move setup (.step a) = some w := hstep
    have hnext := run_continues (s := s.adopt setup w) (hs.move hm)
      (World.unhindered_of_step hs hstep) patience
    exact (Continues.move hm rfl).trans hnext

theorem settleWithin_continues (hs : s.world.Supervised) (n : Nat) :
    Continues setup s.world (settleWithin setup n s).world := by
  induction n generalizing s with
  | zero => exact .refl _
  | succ n ih =>
    unfold settleWithin
    split
    · exact .refl _
    · next a rest _ =>
      have hturn := @turn_continues setup { s with ready := rest } hs a
      exact hturn.trans (ih (hturn.supervised hs))

theorem settle_continues (hs : s.world.Supervised) :
    Continues setup s.world (s.settle setup).world := settleWithin_continues hs patience

theorem foldl_continues {α : Type} {go : Schedule → α → Schedule}
    (hgo : ∀ s a, s.world.Supervised → Continues setup s.world (go s a).world) (as : List α)
    (hs : s.world.Supervised) : Continues setup s.world (as.foldl go s).world := by
  induction as generalizing s with
  | nil => exact .refl _
  | cons a rest ih =>
    have hfirst := hgo s a hs
    exact hfirst.trans (ih (hfirst.supervised hs))

theorem release_continues (hs : s.world.Supervised) (m : Method) :
    Continues setup s.world (s.release setup m).world := by
  have hfree : Continues setup s.world { s.world with holding := s.world.holding.erase m } :=
    .move (m := .free m) rfl rfl
  unfold release
  refine hfree.trans (foldl_continues (s := { s with world := _ }) (fun s a hs => ?_) _
    (hfree.supervised hs))
  split
  · split
    · have hclear : Continues setup s.world (s.world.clear a) := .move (m := .clear a) rfl rfl
      exact hclear.trans (settle_continues (s := s.adopt setup _) (hclear.supervised hs))
    · exact .refl _
  · exact .refl _

/-- Whatever a command comes to, at most one call begins, and it begins first. -/
theorem carryOut_cases (hs : s.world.Supervised) (hid : s.world.calls.contains id = false) :
    ∃ w, (w = s.world ∨ ∃ a, s.world.move setup (.ask id a) = some w) ∧
      Continues setup w (s.carryOut setup id settles c).world := by
  have asked : ∀ a, s.world.move setup (.ask id a) = some (s.world.ask setup id a) := fun a => by
    simp [World.move, hid]
  cases c with
  | act a =>
    have hask := hs.move (asked a)
    have hrun : Continues setup (s.world.ask setup id a) (s.ask setup id a).world := by
      unfold ask
      dsimp only
      split
      · exact .refl _
      · exact run_continues (s := s.adopt setup (s.world.ask setup id a)) hask (.of_call _ id) patience
    refine ⟨_, .inr ⟨a, asked a⟩, ?_⟩
    unfold carryOut
    dsimp only
    split
    · exact hrun.trans (settle_continues (hrun.supervised hask))
    · exact hrun
  | elapse nanos =>
    have hask := hs.move (asked (.hold .subscribe))
    have hpass : Continues setup (s.world.ask setup id (.hold .subscribe)) _ :=
      .move (m := .elapse nanos) rfl rfl
    have hall := hpass.trans (settle_continues (s := s.adopt setup _) (hpass.supervised hask))
    refine ⟨_, .inr ⟨_, asked (.hold .subscribe)⟩, ?_⟩
    unfold carryOut elapse
    dsimp only
    split
    · exact hall
    · exact hall.trans (release_continues (hall.supervised hask) .subscribe)
  | release m => exact ⟨_, .inl rfl, release_continues hs m⟩
  | rest => exact ⟨_, .inl rfl, settle_continues hs⟩

/-- Carries out commands one after another, numbered from `n` on. Each says whether everybody runs
afterwards. -/
def script (setup : Setup) (s : Schedule) (n : Nat) : List (Bool × Command) → Schedule
  | [] => s
  | (settles, c) :: rest => (s.carryOut setup n settles c).script setup (n + 1) rest

theorem carryOut_reaches (hf : Reachable (fun _ => setup) (only s.world))
    (hid : s.world.calls.contains id = false) :
    Reachable (fun _ => setup) (only (s.carryOut setup id settles c).world) ∧
    ∀ call, (s.carryOut setup id settles c).world.calls.contains call = true →
      call = id ∨ s.world.calls.contains call = true := by
  have hs : s.world.Supervised := .of_reachable (i := 0) hf rfl
  obtain ⟨w, hw, hgo⟩ := @carryOut_cases setup s id settles c hs hid
  rcases hw with rfl | ⟨a, hask⟩
  · exact ⟨hf.reaches (Guarded.reaches hgo), fun call h =>
      .inr (Guarded.calls hgo hf (i := 0) rfl rfl h)⟩
  · have hw := hf.reaches (.move .refl (only_move hask))
    refine ⟨hw.reaches (Guarded.reaches hgo), fun call h => ?_⟩
    have hcall : w.calls.contains call = true := Guarded.calls hgo hw (i := 0) rfl rfl h
    by_cases heq : call = id
    · exact .inl heq
    · exact .inr (World.calls_of_move hs (kept_of_reachable hf (i := 0) rfl).2 hask
        (fun b hb => heq (by cases hb; rfl)) hcall)

theorem script_reaches (hf : Reachable (fun _ => setup) (only s.world))
    (hn : ∀ call, s.world.calls.contains call = true → call < n) (cs : List (Bool × Command)) :
    Reachable (fun _ => setup) (only (script setup s n cs).world) := by
  induction cs generalizing s n with
  | nil => exact hf
  | cons p rest ih =>
    have hfresh : s.world.calls.contains n = false :=
      Bool.eq_false_iff.2 fun h => Nat.lt_irrefl n (hn n h)
    obtain ⟨hf', hcalls⟩ := @carryOut_reaches setup s n p.1 p.2 hf hfresh
    refine ih hf' fun call h => ?_
    rcases hcalls call h with rfl | h
    · exact Nat.lt_succ_self _
    · exact Nat.lt_succ_of_lt (hn call h)

/-- A scenario that is played from the start comes to nothing but moves of a client. -/
theorem reachable_of_script {store : Memory} (hstore : store.channels.entries = [])
    (cs : List (Bool × Command)) :
    Reachable (fun _ => setup) (only (script setup { world := { store } } 0 cs).world) :=
  script_reaches ⟨store, 1, hstore, .refl⟩ (fun _ h => by cases h) cs

end Schedule

end Muster
