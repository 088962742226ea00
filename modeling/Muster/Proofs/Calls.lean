import Muster.Proofs.Lifecycle

/-!
# Calls from their beginning to their end

Every move begins the call of an actor, takes it on, gives it up, or leaves all calls where they
are (`Course`). A call that waits for tasks to end goes on when the first of them has ended, so that
they all have ended when it is answered (`Awaited`). Tasks last: none is ever taken off the list of
a client, and after a shutdown none comes onto it (`Lasts`).
-/
namespace Muster

/-- The tasks that a call waits for. -/
def Stage.awaited : Stage → List Nat
  | .joining id => [id]
  | .draining ids => ids
  | _ => []

theorem Stage.awaited_clear (stage : Stage) : stage.clear.awaited = stage.awaited := by
  cases stage <;> rfl

def Progress.stage? : Progress → Option Stage
  | .finished _ => none
  | .paused stage => some stage

namespace World

variable {setup : Setup} {w v w' : World} {id : Nat} {t : Task} {m : Move} {who : Actor}
  {p : Progress} {stage : Stage}

/-- Who begins a call with a move, and what is asked for. -/
def begins? (w : World) : Move → Option (Actor × Action)
  | .ask call a => if w.calls.contains call then none else some (.call call, a)
  | .step (.task id) => (w.tasks[id]?).bind fun t =>
    if t.isEnded || t.cancelled then none else t.position.action?.map fun a => (.task id, a)
  | _ => none

/-! ## What is recorded of a call -/

/-- How far a call has come is recorded, for itself or for the listener that made it. -/
structure Settled (who : Actor) (p : Progress) (v w' : World) : Prop extends Rests v w' where
  store : w'.store = v.store
  listeners : w'.listeners = v.listeners
  caches : w'.caches = v.caches
  counters : w'.counters = v.counters
  trace : ∃ ms, w'.trace = ms ++ v.trace ∧ ∀ m ∈ ms, m.isAside = true ∧ ∀ a c f, m ≠ .stored a c f
  mine : w'.stage? who = p.stage?
  others : ∀ who', who ≠ who' → w'.stage? who' = v.stage? who'

/-- Whoever had ended then has ended now. -/
theorem Settled.isEnded (h : Settled who p v w') {t' : Task} (ht : w'.tasks[id]? = some t')
    (hend : v.hasEnded id = true) : t'.isEnded = true := by
  have hcharge := h.charge id
  rw [charge?_of_task ht] at hcharge
  obtain ⟨u, hu, heq⟩ := Option.map_eq_some_iff.1 hcharge.symm
  have hended : u.isEnded = true := by simpa [hasEnded, hu] using hend
  exact (congrArg Charge.ended heq).symm.trans hended

theorem settleCall_settled (v : World) (call : Nat) (p : Progress) :
    Settled (.call call) p v (v.settleCall call p) := by
  have others : ∀ (calls : Table Nat Stage) (trace : List Mark),
      (∀ j, call ≠ j → calls.get? j = v.calls.get? j) → ∀ who', Actor.call call ≠ who' →
      ({ v with calls, trace } : World).stage? who' = v.stage? who' := by
    intro calls trace h who' hne
    cases who' with
    | task j => rfl
    | call j => exact h j fun hj => hne (hj ▸ rfl)
  cases p with
  | finished a =>
    exact ⟨.quiet rfl rfl rfl rfl rfl, rfl, rfl, rfl, rfl, ⟨[.answered call a], rfl, by simp [Mark.isAside]⟩,
      by simp [settleCall, note, stage?, Progress.stage?], others _ _ fun j hj => by simp [hj]⟩
  | paused stage =>
    exact ⟨.quiet rfl rfl rfl rfl rfl, rfl, rfl, rfl, rfl, ⟨[], rfl, by simp⟩,
      by simp [settleCall, stage?, Progress.stage?], others _ _ fun j hj => by simp [hj]⟩

theorem settleAction_settled {s : Nat} {pass : Pass} {l : Listener} {rest : List Listener}
    {name label : String} {more : List (String × Action)} {fault : Option Fault}
    (hv : v.tasks[id]? = some t) (he : t.isEnded = false) (p : Progress) :
    Settled (.task id) p v (v.settleAction id s pass l rest name label more fault p) := by
  have hserves : v.Serves id t := .of_task hv he
  have stages : ∀ (u : World) (q : Position), u.tasks = v.tasks → u.calls = v.calls →
      (u.moveTask id q).stage? (.task id) = q.stage? ∧
      ∀ who', Actor.task id ≠ who' → (u.moveTask id q).stage? who' = v.stage? who' := by
    intro u q hu hc
    refine ⟨by simp [stage?, moveTask, updateTask, hu, hv], fun who' hne => ?_⟩
    cases who' with
    | call j => simp only [stage?, moveTask, updateTask, hc]
    | task j =>
      have hj : id ≠ j := fun hj => hne (hj ▸ rfl)
      simp [stage?, moveTask, updateTask, hu, hj]
  cases p with
  | finished a =>
    obtain ⟨hmine, hothers⟩ := stages (v.note (.did name label a))
      (.calling s pass l (.acting name more fault) rest) rfl rfl
    have hnote : Rests v (v.note (.did name label a)) := .note v _
    exact ⟨hnote.trans (.moveTask (hnote.serves hserves) (by simp)), rfl, rfl, rfl, rfl,
      ⟨[.did name label a], rfl, by simp [Mark.isAside]⟩, hmine, hothers⟩
  | paused stage =>
    obtain ⟨hmine, hothers⟩ := stages v
      (.calling s pass l (.awaiting name label stage more fault) rest) rfl rfl
    exact ⟨.moveTask hserves (by simp), rfl, rfl, rfl, rfl, ⟨[], rfl, by simp⟩, hmine, hothers⟩

/-! ## What a move does to calls -/

/-- What a move comes to, for those who have made calls. -/
inductive Course (setup : Setup) (w : World) (m : Move) (w' : World) : Prop where
  | begun {who : Actor} {a : Action} {mark : Mark} {v : World} {p : Progress}
      (hb : w.begins? m = some (who, a)) (hnone : w.stage? who = none)
      (hmark : mark.isAside = true ∧ ∀ a c f, mark ≠ .stored a c f)
      (hrun : (w.note mark).begin setup who a = (v, p)) (h : Settled who p v w')
  | resumed {who : Actor} {stage : Stage} {v : World} {p : Progress} (hm : m = .step who)
      (hst : w.stage? who = some stage) (hrun : w.resume setup who stage = some (v, p))
      (h : Settled who p v w')
  | dropped {who : Actor} {stage : Stage} (hd : w.dropped? m = some who)
      (hst : w.stage? who = some stage) (hmine : w'.stage? who = none)
      (hothers : ∀ who', who ≠ who' → w'.stage? who' = w.stage? who')
      (hc : ∀ c, w'.cell c = (w.abandon who stage).cell c)
  | apart (hs : ∀ who, (w'.stage? who).map Stage.clear = (w.stage? who).map Stage.clear)
      (hc : ∀ c, w'.cell c = w.cell c)

/-- A call that begins leaves all others where they are. -/
theorem begin_stages {a : Action} (hs : Supervised w) (h : w.begin setup who a = (v, p))
    (who' : Actor) : v.stage? who' = w.stage? who' := by
  have hd := @begin_deed setup w who a
  rw [h] at hd
  exact hd.edits.stages (hd.calls hs) who'

theorem resume_stages (hs : Supervised w) (h : w.resume setup who stage = some (v, p))
    (who' : Actor) : v.stage? who' = w.stage? who' := by
  have hd : Deed setup False who w stage.intent? v p.intent? := resume_deed h
  exact hd.edits.stages (hd.calls hs) who'

theorem dropCall_course (w : World) (call : Nat) :
    Course setup w (.drop call) (w.dropCall call) := by
  unfold dropCall
  split
  · exact .apart (fun _ => rfl) fun _ => rfl
  · next stage hstage =>
    have haside := abandon_aside w (.call call) stage
    have hstage : w.stage? (.call call) = some stage := hstage
    refine .dropped rfl hstage (by simp [stage?]) (fun who' hne => ?_) fun _ => rfl
    cases who' with
    | task j => simp only [stage?, haside.tasks]
    | call j =>
      have hj : call ≠ j := fun hj => hne (hj ▸ rfl)
      simp [stage?, hj]

theorem clear_course (w : World) (who : Actor) : Course setup w (.clear who) (w.clear who) := by
  refine .apart (fun who' => ?_) fun c => by cases who <;> rfl
  cases who with
  | call call =>
    cases who' with
    | task j => rfl
    | call j =>
      simp only [stage?, clear, Table.get?_modify]
      split
      · cases w.calls.get? j with
        | none => rfl
        | some stage => cases stage <;> rfl
      · rfl
  | task id =>
    cases who' with
    | call j => rfl
    | task j =>
      simp only [stage?, clear, updateTask, List.getElem?_modify]
      cases w.tasks[j]? with
      | none => rfl
      | some t =>
        by_cases hj : id = j
        · simp [hj, Position.stage?_clear, Function.comp_def, Stage.clear_clear]
        · simp [hj]

/-- A listener that a task called stands where it stood when it has done something. -/
theorem Edits.standing {u : World} (e : Edits setup u v) (ht : u.tasks[id]? = some t)
    (he : t.isEnded = false) : ∃ t' : Task, v.tasks[id]? = some t' ∧ t'.isEnded = false := by
  obtain ⟨t', ht', -, hpos, -⟩ := (Elsewhere.edits e).task t ht
  exact ⟨t', ht', by rw [Task.isEnded, hpos]; exact he⟩

/-- Whoever begins a call runs it to its first stage. -/
theorem move_of_begins {a : Action} (hb : w.begins? m = some (who, a))
    (hm : w.move setup m = some w') : ∃ mark v p, w.stage? who = none ∧
      (mark.isAside = true ∧ ∀ b c f, mark ≠ .stored b c f) ∧
      (w.note mark).begin setup who a = (v, p) ∧ Settled who p v w' := by
  cases m with
  | ask call b =>
    simp only [begins?] at hb
    split at hb
    · cases hb
    · next hnew =>
      cases hb
      simp only [move, if_neg hnew, Option.some.injEq] at hm
      subst hm
      refine ⟨.asked call a, _, _, ?_, by simp [Mark.isAside], rfl, settleCall_settled _ call _⟩
      simpa [Table.contains, stage?] using hnew
  | step b =>
    cases b with
    | call call => cases hb
    | task id =>
      obtain ⟨t, ht, hb⟩ := Option.bind_eq_some_iff.1 hb
      split at hb
      · cases hb
      · next hlive =>
        obtain ⟨he, hcan⟩ : t.isEnded = false ∧ t.cancelled = false := by simpa using hlive
        obtain ⟨a', ha, heq⟩ := Option.map_eq_some_iff.1 hb
        cases heq
        -- The listener that the task calls is about to act, and the step is its action.
        unfold Position.action? at ha
        split at ha
        · next s pass l name label a' more fault rest hpos =>
          cases ha
          have hstep : w.move setup (.step (.task id)) = some
              (((w.note (.doing name label)).begin setup (.task id) a).1.settleAction id s pass l rest
                name label more fault ((w.note (.doing name label)).begin setup (.task id) a).2) := by
            simp [move, step, ht, stepTask, he, hcan, advanceTask, hpos, resumeCallback]
          cases hm.symm.trans hstep
          obtain ⟨t', ht', he'⟩ :=
            (@begin_edits setup (w.note (.doing name label)) (.task id) a).standing ht he
          exact ⟨.doing name label, _, _, by simp [stage?, ht, hpos, Position.stage?],
            by simp [Mark.isAside], rfl, settleAction_settled ht' he' _⟩
        · cases ha
  | _ => cases hb

theorem move_course (hp : w.Proper) (hm : w.move setup m = some w') :
    Course setup w m w' := by
  have idle : ∀ {u : World}, u.tasks = w.tasks → u.calls = w.calls → u.caches = w.caches →
      Course setup w m u := fun ht hc hcaches =>
    .apart (fun who => congrArg _ (stage?_congr ht hc who)) fun c => by rw [cell, hcaches, cell]
  cases m with
  | step who =>
    cases who with
    | call call =>
      have hm : w.stepCall setup call = some w' := hm
      unfold stepCall at hm
      split at hm
      · cases hm
      · next stage hstage =>
        obtain ⟨⟨v, p⟩, hr, rfl⟩ := Option.map_eq_some_iff.1 hm
        exact .resumed rfl hstage hr (settleCall_settled v call p)
    | task id =>
      have hmove := hm
      obtain ⟨t, ht, hm⟩ := Option.bind_eq_some_iff.1 hm
      have hstage : w.stage? (.task id) = t.position.stage? := by simp [stage?, ht]
      unfold stepTask at hm
      split at hm
      · cases hm
      · next he =>
        have he : t.isEnded = false := by simpa using he
        split at hm
        · next hcan =>
          cases hm
          have hleaves := stopTask_leaves ht
          obtain ⟨hmine, hothers⟩ := hleaves.stages
          have hcell := hleaves.1.cell
          cases hst : t.position.stage? with
          | none =>
            rw [hst] at hcell hothers
            refine .apart (fun who => congrArg _ ?_) hcell
            by_cases hwho : .task id = who
            · rw [← hwho, hmine, hstage, hst]
            · exact hothers who hwho
          | some stage =>
            rw [hst] at hcell hothers
            refine .dropped (by simp [dropped?, ht, hcan, he]) (hstage.trans hst) hmine
              (fun who' hne => (hothers who' hne).trans ?_) hcell
            exact stage?_congr (abandon_aside w _ stage).tasks (by cases stage <;> rfl) who'
        · next hcan =>
          have hcan : t.cancelled = false := by simpa using hcan
          cases (advanceTask_cases hm).strode ht (hp id t ht) with
          | own h => exact .apart (h.stages ht) h.cell
          | @acted s pass l name label a more fault rest v p hpos =>
            have hb : w.begins? (.step (.task id)) = some (.task id, a) := by
              simp [begins?, ht, he, hcan, hpos, Position.action?]
            obtain ⟨mark, v, p, hnone, hmark, hrun, hset⟩ := move_of_begins hb hmove
            exact .begun hb hnone hmark hrun hset
          | @resumed s pass l name label stage more fault rest v p hpos hrun =>
            obtain ⟨t', ht', he'⟩ := (resume_edits hrun).standing ht he
            exact .resumed rfl (by rw [hstage, hpos]; rfl) hrun (settleAction_settled ht' he' p)
  | ask call a =>
    have hnew : ¬ w.calls.contains call = true := fun h => by simp [move, h] at hm
    have hb : w.begins? (.ask call a) = some (.call call, a) := if_neg hnew
    obtain ⟨mark, v, p, hnone, hmark, hrun, hset⟩ := move_of_begins hb hm
    exact .begun hb hnone hmark hrun hset
  | drop call =>
    cases hm
    exact dropCall_course w call
  | clear who =>
    cases hm
    exact clear_course w who
  | free method =>
    cases hm
    exact idle rfl rfl rfl
  | elapse n =>
    cases hm
    exact idle rfl rfl rfl

/-! ## Tasks last -/

/-- A task stays on the list under its number, and cancelled if it was; after a shutdown no other
comes onto it. -/
structure Lasts (w w' : World) : Prop where
  task : ∀ {id : Nat} {t : Task}, w.tasks[id]? = some t → ∃ t' : Task, w'.tasks[id]? = some t' ∧
    t'.cluster = t.cluster ∧ (t.cancelled = true → t'.cancelled = true)
  length : w.closed = true → w'.tasks.length = w.tasks.length

namespace Lasts

theorem same (h : w'.tasks = w.tasks) : Lasts w w' :=
  ⟨fun {_ t} ht => ⟨t, h ▸ ht, rfl, fun h => h⟩, fun _ => by rw [h]⟩

theorem trans {a b c : World} (h : Lasts a b) (h' : Lasts b c)
    (hclosed : a.closed = true → b.closed = true) : Lasts a c where
  task ht := by
    obtain ⟨u, hu, hc, hcan⟩ := h.task ht
    obtain ⟨v, hv, hc', hcan'⟩ := h'.task hu
    exact ⟨v, hv, hc'.trans hc, fun h => hcan' (hcan h)⟩
  length ha := (h'.length (hclosed ha)).trans (h.length ha)

theorem updateTask (w : World) (id : Nat) (f : Task → Task) (hc : ∀ u, (f u).cluster = u.cluster)
    (hcan : ∀ u : Task, u.cancelled = true → (f u).cancelled = true) :
    Lasts w (w.updateTask id f) := by
  refine ⟨fun {j t} ht => ?_, fun _ => List.length_modify _ _ _⟩
  by_cases hj : id = j
  · exact ⟨f t, by simp [World.updateTask, hj, ht], hc t, hcan t⟩
  · exact ⟨t, by simp [World.updateTask, hj, ht], rfl, fun h => h⟩

theorem edits (e : Edits setup w w') : Lasts w w' := by
  refine ⟨fun {id t} ht => ?_, fun hclosed => ?_⟩
  · obtain ⟨t', ht', hc, -, hcan⟩ := (@Elsewhere.edits setup id w w' e).task t ht
    exact ⟨t', ht', hc, hcan⟩
  · induction e with
    | aside h => rw [h.tasks]
    | attach w c l => rw [World.attach, if_pos hclosed]
    | detach w c name =>
      unfold World.detach
      split
      · rfl
      · dsimp only
        split
        · rfl
        · exact List.length_modify _ _ _
      · rfl
    | close w => exact List.length_map _
    | trans h _ ih ih' => exact (ih' (h.closed hclosed)).trans (ih hclosed)

theorem acts (a : Acts id t w w') : Lasts w w' := by
  induction a with
  | aside h => exact same h.tasks
  | note | store => exact same rfl
  | update w f hc _ hcan => exact updateTask w id f hc fun u hu => (hcan u).trans hu
  | publish w => exact same (publish_others w id t _).1
  | took w => exact same rfl
  | trans h _ ih ih' => exact ih.trans ih' h.closed

theorem turn (h : Turn setup id t w w') : Lasts w w' := by
  have moved : ∀ (v : World) (p : Position), Lasts v (v.moveTask id p) := fun v _ =>
    updateTask v id _ (fun _ => rfl) fun _ h => h
  cases h with
  | own hf =>
    cases hf with
    | on ha => exact acts ha
    | @off v s ha =>
      have hpub : Lasts v (v.publish id t s) := same (publish_others v id t s).1
      have hend : Lasts (v.publish id t s) (v.finishTask id t s) :=
        ⟨(moved _ .ended).task, (moved _ .ended).length⟩
      exact (acts ha).trans (hpub.trans hend (publish_others v id t s).2.2.2.trans) ha.closed
  | called he => exact (edits he).trans (moved _ _) he.closed

theorem move (hm : w.move setup m = some w') : Lasts w w' := by
  cases move_cases hm with
  | edits he => exact edits he
  | cleared => exact updateTask w _ _ (fun _ => rfl) fun _ h => h
  | @stopped id t =>
    have hturn : Turn setup id t w (w.stopTask id t) := .own (stopTask_finishes w)
    exact turn hturn
  | went _ he _ hstep => exact turn (hstep.turn he)

end Lasts

/-! ## Waiting for tasks -/

/-- Each of the tasks has ended, or the actor's call waits for it. -/
def Awaited (w : World) (who : Actor) (ids : List Nat) : Prop :=
  ∀ id ∈ ids, ∃ t : Task, w.tasks[id]? = some t ∧
    (t.isEnded = true ∨ ∃ stage, w.stage? who = some stage ∧ id ∈ stage.awaited)

theorem drain_awaited {ids : List Nat} (h : w.drain ids = (v, p)) (hid : id ∈ ids) :
    v = w ∧ (w.hasEnded id = true ∨ ∃ stage, p.stage? = some stage ∧ id ∈ stage.awaited) := by
  rw [← List.takeWhile_append_dropWhile (p := w.hasEnded) (l := ids)] at hid
  unfold drain at h
  rcases List.mem_append.1 hid with hid | hid
  · refine ⟨?_, .inl (List.all_eq_true.1 List.all_takeWhile id hid)⟩
    split at h <;> cases h <;> rfl
  · split at h
    · next hnil =>
      rw [hnil] at hid
      cases hid
    · cases h
      exact ⟨rfl, .inr ⟨_, rfl, hid⟩⟩

/-- A call that waits for a task goes on waiting for it until it has ended. -/
theorem resume_awaited (h : w.resume setup who stage = some (v, p)) (hid : id ∈ stage.awaited) :
    v = w ∧ (w.hasEnded id = true ∨ ∃ stage, p.stage? = some stage ∧ id ∈ stage.awaited) := by
  cases stage with
  | joining k =>
    obtain ⟨rfl, hend, -⟩ := joining_ends h
    exact ⟨rfl, .inl (List.mem_singleton.1 hid ▸ hend)⟩
  | draining ids =>
    simp only [resume] at h
    split at h
    · split at h
      · exact drain_awaited (Option.some.inj h) hid
      · cases h
    · cases hid
  | _ => cases hid

/-- Unless the call is given up. -/
theorem Awaited.move {ids : List Nat} (h : w.Awaited who ids) (hs : Supervised w) (hp : w.Proper)
    (hm : w.move setup m = some w') (hd : w.dropped? m ≠ some who) : w'.Awaited who ids := by
  intro id hid
  obtain ⟨t, ht, hwait⟩ := h id hid
  obtain ⟨t', ht', -⟩ := (Lasts.move hm).task ht
  have ended : t.isEnded = true → t'.isEnded = true := fun hend => by
    obtain ⟨u, hu, hend⟩ := ended_of_move hm ht hend
    cases ht'.symm.trans hu
    exact hend
  refine ⟨t', ht', ?_⟩
  rcases hwait with hend | ⟨stage, hstage, hmem⟩
  · exact .inl (ended hend)
  · cases move_course hp hm with
    | @begun who' a mark v p hb hnone hmark hrun hset =>
      -- Whoever waits is in the middle of a call and begins no other.
      have hne : who' ≠ who := by
        rintro rfl
        rw [hnone] at hstage
        cases hstage
      have hsup : Supervised (w.note mark) := hs.rests (.note w mark)
      exact .inr ⟨stage, (hset.others who hne).trans ((begin_stages hsup hrun who).trans hstage), hmem⟩
    | @resumed who' stage' v p hstep hst hrun hset =>
      by_cases hne : who' = who
      · subst hne
        cases hst.symm.trans hstage
        obtain ⟨rfl, hend | ⟨stage', hp', hmem'⟩⟩ := resume_awaited hrun hmem
        · exact .inl (ended (by simpa [hasEnded, ht] using hend))
        · exact .inr ⟨stage', hset.mine.trans hp', hmem'⟩
      · exact .inr ⟨stage, (hset.others who hne).trans ((resume_stages hs hrun who).trans hstage), hmem⟩
    | @dropped who' stage' hd' hst hmine hothers hc =>
      have hne : who' ≠ who := fun heq => hd (heq ▸ hd')
      exact .inr ⟨stage, (hothers who hne).trans hstage, hmem⟩
    | apart hstages hc =>
      have hclear := hstages who
      rw [hstage] at hclear
      obtain ⟨stage', hstage', heq⟩ := Option.map_eq_some_iff.1 hclear
      refine .inr ⟨stage', hstage', ?_⟩
      rw [← Stage.awaited_clear, heq, Stage.awaited_clear]
      exact hmem

end World

namespace Fleet

variable {setups : Nat → Setup} {f g : Fleet} {i : Nat} {w v : World} {who : Actor}

/-- The states that moves lead to in which an actor of a client does not give its call up. -/
def Unbroken (setups : Nat → Setup) (i : Nat) (who : Actor) : Fleet → Fleet → Prop :=
  Guarded setups fun j m f _ => j = i → ∀ w ∈ f.world? i, w.dropped? m ≠ some who

/-- Makes moves one after another, unless the actor of the client gives its call up. -/
def runUnbroken (setups : Nat → Setup) (i : Nat) (who : Actor) (f : Fleet) :
    List (Nat × Move) → Option Fleet :=
  f.runGuarded setups fun j m f _ => j = i → ∀ w ∈ f.world? i, w.dropped? m ≠ some who

theorem unbroken_of_run {ms : List (Nat × Move)} (h : f.runUnbroken setups i who ms = some g) :
    Unbroken setups i who f g := guarded_of_run h

theorem Unbroken.awaited {ids : List Nat} (hr : Unbroken setups i who f g)
    (hf : Reachable setups f) (hw : f.world? i = some w) (h : w.Awaited who ids)
    (hv : g.world? i = some v) : v.Awaited who ids := by
  induction hr generalizing v with
  | refl =>
    cases hw.symm.trans hv
    exact h
  | @move g k j m past next hkeep ih =>
    obtain ⟨u, u', hu, hm, -, hj, hothers⟩ := move_cases next
    by_cases hji : j = i
    · subst hji
      cases hj.symm.trans hv
      have hreach := hf.reaches past.reaches
      exact (ih hu).move (.of_reachable hreach hu) (kept_of_reachable hreach hu).2 hm
        (hkeep rfl u hu)
    · rw [hothers i hji] at hv
      obtain ⟨x, hx, rfl⟩ := Option.map_eq_some_iff.1 hv
      have hkept : x.Awaited who ids := ih hx
      exact hkept

/-- When a call that waited for a task is answered, the task has ended. -/
theorem Unbroken.ended {id : Nat} (hr : Unbroken setups i who f g) (hf : Reachable setups f)
    (hw : f.world? i = some w) (h : w.Awaited who [id]) (hv : g.world? i = some v)
    (hst : v.stage? who = none) : v.hasEnded id = true := by
  obtain ⟨t, ht, hend | ⟨stage, hstage, -⟩⟩ :=
    hr.awaited hf hw h hv id (List.mem_singleton_self id)
  · simpa [World.hasEnded, ht] using hend
  · rw [hst] at hstage
    cases hstage

/-- Whatever moves are made, a client keeps its tasks, and gets no more after a shutdown. -/
theorem Reaches.lasts (hr : Reaches setups f g) (hw : f.world? i = some w)
    (hv : g.world? i = some v) : World.Lasts w v ∧ (w.closed = true → v.closed = true) := by
  refine hr.keeps (P := fun v => World.Lasts w v ∧ (w.closed = true → v.closed = true))
    (fun _ _ h => ⟨⟨h.1.task, h.1.length⟩, h.2⟩) (fun k u u' m h hm => ?_) (fun u hu => ?_) hv
  · exact ⟨h.1.trans (.move hm) h.2, fun hc => World.closed_of_move (h.2 hc) hm⟩
  · cases hw.symm.trans hu
    exact ⟨.same rfl, fun h => h⟩

end Fleet

end Muster
