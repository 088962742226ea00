import Muster.Proofs.Answers
import Muster.Proofs.Lifecycle

/-!
# Who makes which mark

Every mark of a command, of a call of a listener or of a look at a stream has an author
(`Mark.author?`). Only a step of the author makes it, and a task that was cancelled or has ended
makes none (`move_author`). The answer of a call is what its own move records last (`Records`).
-/
namespace Muster

/-- Who has sent a command, called a listener or looked at its stream or its queue. -/
def Mark.author? : Mark → Option Actor
  | .stored who _ _ => some who
  | .called id _ _ | .returned id _ _ _ | .opened id _ _ | .read id _ | .took id _ _
  | .dispatched id _ _ => some (.task id)
  | _ => none

/-- The call that a move begins or takes on. -/
def Move.call? : Move → Option Nat
  | .ask call _ | .step (.call call) => some call
  | _ => none

/-- The call that a mark answers. -/
def Mark.answers? : Mark → Option Nat
  | .answered call _ => some call
  | _ => none

namespace World

variable {setup : Setup} {w v w' : World} {id : Nat} {t : Task} {m : Move} {who : Option Actor}
  {p : Progress}

/-! ## Whose marks are made -/

/-- The marks that are made are those of one actor, or of nobody, and they answer no call. -/
def Signed (who : Option Actor) (w v : World) : Prop :=
  ∃ ms, v.trace = ms ++ w.trace ∧
    ∀ m ∈ ms, m.answers? = none ∧ (m.author? = none ∨ m.author? = who)

namespace Signed

theorem same (h : v.trace = w.trace) : Signed who w v := ⟨[], h, by simp⟩

theorem trans {a b c : World} (h : Signed who a b) (h' : Signed who b c) : Signed who a c := by
  obtain ⟨ms, hm, hms⟩ := h
  obtain ⟨ms', hm', hms'⟩ := h'
  refine ⟨ms' ++ ms, by simp [hm', hm], fun m hmem => ?_⟩
  rcases List.mem_append.1 hmem with hmem | hmem
  · exact hms' m hmem
  · exact hms m hmem

theorem note (w : World) {m : Mark}
    (h : m.answers? = none ∧ (m.author? = none ∨ m.author? = who)) : Signed who w (w.note m) :=
  ⟨[m], rfl, by simpa using h⟩

theorem authors (h : Signed who w v) : ∃ ms, v.trace = ms ++ w.trace ∧
    ∀ m ∈ ms, ∀ a, m.author? = some a → who = some a := by
  obtain ⟨ms, hm, hms⟩ := h
  refine ⟨ms, hm, fun m hmem a ha => ?_⟩
  rcases (hms m hmem).2 with hnone | hsome
  · rw [hnone] at ha
    cases ha
  · exact hsome.symm.trans ha

/-- What nobody has signed. -/
theorem anyone (h : Signed none w v) : Signed who w v := by
  obtain ⟨ms, hm, hms⟩ := h
  exact ⟨ms, hm, fun m hmem => (hms m hmem).imp_right fun h => .inl (or_self_iff.1 h)⟩

theorem perform {α : Type} (w : World) (who : Actor) (call : StoreCall)
    (command : Memory → Except Fault (α × Memory)) :
    Signed (some who) w (w.perform who call command).2 := by
  rcases perform_cases w who call command with ⟨f, faults, h⟩ | ⟨a, store, faults, -, h⟩ <;> rw [h]
  · exact .trans (b := { w with faults }) (.same rfl) (.note _ ⟨rfl, .inr rfl⟩)
  · exact .trans (b := { w with faults, store }) (.same rfl) (.note _ ⟨rfl, .inr rfl⟩)

theorem publish (w : World) (id : Nat) (t : Task) (s : Status) :
    Signed who w (w.publish id t s) := by
  unfold World.publish
  split
  · exact .same rfl
  · split
    · exact ⟨[.published id s], rfl, by simp [Mark.author?, Mark.answers?]⟩
    · exact .same rfl

theorem closeStream (w : World) (t : Task) : Signed who w (w.closeStream t) := by
  unfold World.closeStream
  split <;> exact .same rfl

theorem finishTask (w : World) (id : Nat) (t : Task) (s : Status) :
    Signed who w (w.finishTask id t s) :=
  (publish w id t s).trans (note _ ⟨rfl, .inl rfl⟩)

theorem dropAttempt (w : World) (id : Nat) (t : Task) :
    Signed who w (w.dropAttempt setup id t) := by
  rcases dropAttempt_cases setup w id t with ⟨-, heq⟩ | ⟨-, heq⟩ <;> rw [heq]
  · exact finishTask ((w.updateTask id _).count .subscriptionFailures) id t .failed
  · exact publish (({ w with draws := w.draws + 1 } : World).updateTask id _) id t .reconnecting

theorem endAttempt (w : World) (id : Nat) (t : Task) (f : Fault) :
    Signed who w (w.endAttempt setup id t f) := by
  unfold World.endAttempt
  dsimp only
  split
  · exact (closeStream w t).trans (finishTask ((w.closeStream t).count .subscriptionFailures) id t .failed)
  · exact (closeStream w t).trans (dropAttempt _ id t)

/-! ### Calls -/

theorem attach (w : World) (c : String) (l : Listener) :
    Signed who w (w.attach setup c l).2 := by
  unfold World.attach
  split
  · exact .same rfl
  · split
    · exact ⟨[.attached c l true], rfl, by simp [Mark.author?, Mark.answers?]⟩
    · exact ⟨[.spawned _ c _, .attached c l false], rfl, by simp [Mark.author?, Mark.answers?]⟩

theorem detach (w : World) (c : String) (l : Listener) : Signed who w (w.detach c l).2.2 := by
  unfold World.detach
  split
  · exact .same rfl
  · dsimp only
    split
    · exact ⟨[.detached c l], rfl, by simp [Mark.author?, Mark.answers?]⟩
    · exact ⟨[.cancelled _, .detached c l], rfl, by simp [Mark.author?, Mark.answers?]⟩
  · exact ⟨[.detached c l], rfl, by simp [Mark.author?, Mark.answers?]⟩

theorem sendAll (key : String) (ms : List String) (w : World) (n : Nat) :
    Signed who w (w.sendAll key n ms).1 := by
  induction ms generalizing w n with
  | nil => exact .same rfl
  | cons m rest ih =>
    unfold World.sendAll
    split
    · exact .same rfl
    · exact ih { w with store := _ } _

theorem awaitStart (w : World) (load : Load) : Signed who w (w.awaitStart load).1 := by
  rcases awaitStart_cases w load with h | ⟨seen, h⟩ <;> rw [h] <;> exact .same rfl

theorem takeSnapshot (w : World) (load : Load) (fields : List (String × String)) :
    Signed who w (w.takeSnapshot setup load fields).1 := by
  unfold World.takeSnapshot
  dsimp only
  generalize hv : ({ (w.updateCache load.cluster fun m => m.replace (addressesOf fields)) with
    updaters := (w.updateCache load.cluster fun m => m.replace (addressesOf fields)).updaters + 1 }
      : World) = v
  have hbefore : Signed who w v := hv ▸ .same rfl
  have hattach := @attach setup who v load.cluster
    (.updater load.cluster (w.updateCache load.cluster fun m => m.replace (addressesOf fields)).updaters)
  split
  · next h =>
    rw [h] at hattach
    exact (hbefore.trans hattach).trans (.same rfl)
  · next h =>
    rw [h] at hattach
    exact (hbefore.trans hattach).trans (awaitStart _ _)

theorem write (w : World) (who : Actor) (e : Event) : Signed (some who) w (w.write setup who e).1 := by
  have hset : Signed (some who) w (w.setField who setup.config.ownKey e.address.text
    setup.config.identity).2 := perform w who _ _
  have hdel : Signed (some who) w (w.deleteField who setup.config.ownKey e.address.text).2 :=
    perform w who _ _
  unfold World.write
  cases e.kind <;> dsimp only <;> split <;> assumption

theorem announce (w : World) (who : Actor) (e : Event) :
    Signed (some who) w (w.announce setup who e).1 := by
  have h : Signed (some who) w (w.publishMessage who setup.config.ownKey e.encode).2 := perform w who _ _
  unfold World.announce
  split <;> next hp => rw [hp] at h; exact h

theorem read (w : World) (who : Actor) (load : Load) : Signed (some who) w (w.read who load).1 := by
  have h : Signed (some who) w (w.readFields who (registryKey load.cluster)).2 := perform w who _ _
  unfold World.read
  split <;> next hp => rw [hp] at h; exact h

end Signed

theorem beginLoad_trace (w : World) (who : Actor) (key : String) (view : Bool) :
    (w.beginLoad setup who key view).1.trace = w.trace := by
  unfold beginLoad
  split
  · rfl
  · dsimp only
    split
    · rfl
    · split
      · rfl
      · split <;> rfl
      · rfl

/-- Nothing of what a call begins with is a command. -/
theorem begin_signed (w : World) (who : Actor) (a : Action) :
    Signed none w (w.begin setup who a).1 := by
  cases a with
  | register text => exact .same (by rw [begin, beginChange_fst])
  | unregister text => exact .same (by rw [begin, beginChange_fst])
  | lookup key => exact .same (beginLoad_trace w who key false)
  | view key => exact .same (beginLoad_trace w who key true)
  | «attach» c l => exact .attach w c (.user l)
  | detach c l guarded =>
    simp only [begin, beginDetach]
    split
    · exact .same rfl
    · have h := @Signed.detach none w c (.user l)
      split <;> next hd => rw [hd] at h; exact h
  | awaitSettled c =>
    simp only [begin, beginWatch]
    split
    · exact .same rfl
    · split <;> exact .same rfl
  | awaitStarted c =>
    simp only [begin, beginWatch]
    split
    · exact .same rfl
    · split <;> exact .same rfl
  | shutdown =>
    simp only [begin, drain]
    split <;> exact .same rfl
  | send key ms => exact .sendAll key ms w 0
  | putField key field value =>
    simp only [begin]
    split <;> exact .same rfl
  | dropField key field =>
    simp only [begin]
    split <;> exact .same rfl
  | readHash key =>
    simp only [begin]
    split <;> exact .same rfl
  | _ => exact .same rfl

theorem resume_signed {who : Actor} {stage : Stage} (h : w.resume setup who stage = some (v, p)) :
    Signed (some who) w v := by
  have gate : ∀ {m : Method} {g : Gate} {hold : Stage} {go : World × Progress},
      w.throughGate m g hold go = some (v, p) → Signed (some who) w go.1 → Signed (some who) w v := by
    intro m g hold go hgate hgo
    rcases throughGate_cases hgate with hr | hr
    · cases hr
      exact .same rfl
    · subst hr
      exact hgo
  cases stage with
  | writing e g => exact gate h (.write w who e)
  | announcing e g => exact gate h (.announce w who e)
  | reading load g => exact gate h (.read w who load)
  | replied load fields g => exact gate h (.takeSnapshot w load fields)
  | queued load =>
    simp only [resume] at h
    split at h
    · cases h
      exact .same rfl
    · split at h
      · cases h
        exact .same rfl
      · cases h
    · cases h
  | starting load seen =>
    simp only [resume] at h
    split at h
    · split at h
      · cases h
      · have hw : (w.awaitStart load).1 = v := congrArg Prod.fst (Option.some.inj h)
        exact hw ▸ .awaitStart w load
    · cases h
  | watching c goal seen =>
    simp only [resume, beginWatch] at h
    split at h
    · split at h
      · cases h
      · have hr := Option.some.inj h
        split at hr
        · cases hr
          exact .same rfl
        · split at hr <;> (cases hr; exact .same rfl)
    · cases h
  | joining k =>
    obtain ⟨rfl, -⟩ := joining_ends h
    exact .same rfl
  | draining ids =>
    simp only [resume, drain] at h
    split at h
    · split at h
      · have hr := Option.some.inj h
        split at hr <;> (cases hr; exact .same rfl)
      · cases h
    · cases h
      exact .same rfl

/-! ### Steps of tasks -/

namespace Signed

theorem afterCallback (w : World) (id : Nat) (t : Task) (s : Nat) (pass : Pass) (l : Listener)
    (fault : Option Fault) (rest : List Listener) :
    Signed (some (.task id)) w (w.afterCallback setup id t s pass l fault rest) := by
  have hnote : Signed (some (.task id)) w (w.note (.returned id l pass.hook fault)) :=
    note w ⟨rfl, .inr rfl⟩
  unfold World.afterCallback
  dsimp only
  split
  · exact hnote
  · split
    · exact hnote.trans (endAttempt (World.count _ .protocolFaults) id t _)
    · exact hnote
  · exact hnote.trans (endAttempt _ id t _)

theorem call (w : World) (id : Nat) (t : Task) (s : Nat) (pass : Pass) (l : Listener)
    (rest : List Listener) : Signed (some (.task id)) w (w.call setup id t s pass l rest) := by
  have hnote : Signed (some (.task id)) w (w.note (.called id l pass.hook)) :=
    note w ⟨rfl, .inr rfl⟩
  have happly : ∀ m, ((w.note (.called id l pass.hook)).applyEvent t.cluster m).2.trace =
      (w.note (.called id l pass.hook)).trace := fun m => by
    unfold applyEvent
    split <;> rfl
  unfold World.call
  dsimp only
  split
  · exact hnote
  · exact (hnote.trans (.same (happly _))).trans (afterCallback _ id t s pass _ _ rest)
  · exact hnote

theorem finishPass (w : World) (id : Nat) (t : Task) (s : Nat) (pass : Pass) :
    Signed who w (w.finishPass id t s pass) := by
  cases pass with
  | full => exact publish w id t .active
  | _ => exact .same rfl

theorem takePending (w : World) (id : Nat) (c : String) :
    Signed (some (.task id)) w (w.takePending id c).2 :=
  note { w with listeners := _ } ⟨rfl, .inr rfl⟩

theorem beginFullPass (w : World) (id : Nat) (t : Task) (s : Nat) :
    Signed (some (.task id)) w (w.beginFullPass id t s) :=
  (takePending w id t.cluster).trans (note _ ⟨rfl, .inr rfl⟩)

theorem receive (w : World) (id : Nat) (t : Task) (s : Nat) (payload : String) :
    Signed (some (.task id)) w (w.receive setup id t s payload) := by
  unfold World.receive
  split
  · exact endAttempt w id t _
  · dsimp only
    split
    · exact endAttempt ((w.count .eventsReceived).count .protocolFaults) id t _
    · exact (takePending (w.count .eventsReceived) id t.cluster).trans
        (note _ ⟨rfl, .inr rfl⟩)

theorem settleAction (w : World) (id s : Nat) (pass : Pass) (l : Listener) (rest : List Listener)
    (name label : String) (more : List (String × Action)) (fault : Option Fault) (p : Progress) :
    Signed who w (w.settleAction id s pass l rest name label more fault p) := by
  cases p with
  | finished a => exact note w (m := .did name label a) ⟨rfl, .inl rfl⟩
  | paused stage => exact .same rfl

end Signed

theorem TaskStep.signed (step : TaskStep setup w id t w') : Signed (some (.task id)) w w' := by
  have looked : ∀ (store : Memory) (r : Reading),
      Signed (some (.task id)) w ({ w with store }.note (.read id r)) := fun store r =>
    ⟨[.read id r], rfl, by simp [Mark.author?, Mark.answers?]⟩
  cases step with
  | parked => exact .same rfl
  | refused hp h =>
    have hopen : Signed (some (.task id)) w (w.openStream (.task id) (registryKey t.cluster)).2 :=
      .perform w (.task id) _ _
    rw [h] at hopen
    exact hopen.trans (.dropAttempt _ id t)
  | opened hp h =>
    have hopen : Signed (some (.task id)) w (w.openStream (.task id) (registryKey t.cluster)).2 :=
      .perform w (.task id) _ _
    rw [h] at hopen
    exact hopen.trans (.beginFullPass _ id t _)
  | passed => exact .finishPass w id t _ _
  | called => exact .call w id t _ _ _ _
  | unread hp h =>
    have hread : Signed (some (.task id)) w (w.readFields (.task id) (registryKey t.cluster)).2 :=
      .perform w (.task id) _ _
    rw [h] at hread
    exact hread.trans (.afterCallback _ id t _ _ _ _ _)
  | read hp h =>
    have hread : Signed (some (.task id)) w (w.readFields (.task id) (registryKey t.cluster)).2 :=
      .perform w (.task id) _ _
    rw [h] at hread
    exact hread
  | replaced => exact .afterCallback (w.updateCache _ _) id t _ _ _ _ _
  | returned => exact .afterCallback w id t _ _ _ _ _
  | @acted s pass l name label a more fault rest v p hp h =>
    have hdoing : Signed (some (.task id)) w (w.note (.doing name label)) := .note w ⟨rfl, .inl rfl⟩
    have hbegin := @begin_signed setup (w.note (.doing name label)) (.task id) a
    rw [h] at hbegin
    exact (hdoing.trans hbegin.anyone).trans (.settleAction v id s pass l rest name label more fault p)
  | @resumed s pass l name label stage more fault rest v p hp h =>
    exact (resume_signed h).trans (.settleAction v id s pass l rest name label more fault p)
  | woken hp hn hv =>
    subst hv
    exact .takePending (w.updateTask id _) id t.cluster
  | received => exact (looked _ _).trans (.receive _ id t _ _)
  | closed => exact (looked _ _).trans (.endAttempt _ id t _)
  | retried => exact .same rfl

theorem abandon_signed (w : World) (a : Actor) (stage : Stage) : Signed who w (w.abandon a stage) := by
  cases stage <;> exact .same rfl

theorem stopTask_signed (w : World) (id : Nat) (t : Task) : Signed who w (w.stopTask id t) := by
  unfold stopTask
  dsimp only
  split
  · exact ((abandon_signed w _ _).trans (.closeStream _ t)).trans (.finishTask _ id t .stopped)
  · exact (Signed.closeStream w t).trans (.finishTask _ id t .stopped)

theorem settleCall_trace (w : World) (call : Nat) (p : Progress) :
    (w.settleCall call p).trace = w.trace ∨
      ∃ r, p = .finished r ∧ (w.settleCall call p).trace = .answered call r :: w.trace := by
  cases p with
  | finished r => exact .inr ⟨r, rfl, rfl⟩
  | paused stage => exact .inl rfl

/-! ## Moves -/

/-- What a move records: what somebody has signed, who is no task that was cancelled or has ended,
and then the answer of the call that the move begins or takes on, if it answers. -/
structure Records (setup : Setup) (w : World) (m : Move) (w' : World) (who : Option Actor)
    (v : World) : Prop where
  signed : Signed who w v
  author : ∀ a, who = some a → m = .step a ∧
    ∀ id, a = .task id → ∃ t, w.tasks[id]? = some t ∧ t.isLive = true
  last : w'.trace = v.trace ∨ ∃ call r, w'.trace = .answered call r :: v.trace ∧
    m.call? = some call ∧ w.Answers setup m r v

theorem Signed.records (h : Signed none w w') : ∃ who v, Records setup w m w' who v :=
  ⟨none, w', h, fun a ha => (by cases ha), .inl rfl⟩

theorem move_records (hm : w.move setup m = some w') : ∃ who v, Records setup w m w' who v := by
  cases m with
  | step a =>
    cases a with
    | call call =>
      have hm : w.stepCall setup call = some w' := hm
      unfold stepCall at hm
      split at hm
      · cases hm
      · next stage hstage =>
        obtain ⟨⟨v, p⟩, hr, rfl⟩ := Option.map_eq_some_iff.1 hm
        refine ⟨some (.call call), v, resume_signed hr, fun a ha => ?_, ?_⟩
        · cases ha
          exact ⟨rfl, fun id hid => by cases hid⟩
        · rcases settleCall_trace v call p with h | ⟨r, rfl, h⟩
          · exact .inl h
          · exact .inr ⟨call, r, h, rfl, .called hstage hr⟩
    | task id =>
      obtain ⟨t, ht, hm⟩ := Option.bind_eq_some_iff.1 hm
      unfold stepTask at hm
      split at hm
      · cases hm
      · next he =>
        split at hm
        · cases hm
          exact (stopTask_signed w id t).records
        · next hcan =>
          refine ⟨some (.task id), w', (advanceTask_cases hm).signed, fun a ha => ?_, .inl rfl⟩
          cases ha
          refine ⟨rfl, fun id' hid => ?_⟩
          cases hid
          exact ⟨t, ht, by simp [Task.isLive, he, hcan]⟩
  | ask call a =>
    simp only [move] at hm
    split at hm
    · cases hm
    · cases hm
      have hasked : Signed none w (w.note (.asked call a)) := .note w ⟨rfl, .inl rfl⟩
      have hbegin := @begin_signed setup (w.note (.asked call a)) (.call call) a
      refine ⟨none, _, hasked.trans hbegin, fun a ha => ?_, ?_⟩
      · cases ha
      rcases settleCall_trace _ call ((w.note (.asked call a)).begin setup (.call call) a).2 with
        h | ⟨r, hp, h⟩
      · exact .inl h
      · exact .inr ⟨call, r, h, rfl, .asked (Prod.ext rfl hp)⟩
  | drop call =>
    cases hm
    have hdrop : Signed none w (w.dropCall call) := by
      unfold dropCall
      split
      · exact .same rfl
      · exact (abandon_signed w (.call call) _).trans (.same rfl)
    exact hdrop.records
  | clear a =>
    cases hm
    have hclear : Signed none w (w.clear a) := .same (by cases a <;> rfl)
    exact hclear.records
  | free method =>
    cases hm
    exact Signed.records (.same rfl)
  | elapse n =>
    cases hm
    exact Signed.records (.same rfl)

/-- Whoever signs a mark makes the move, and is no task that was cancelled or has ended. -/
theorem move_author (hm : w.move setup m = some w') : ∃ ms, w'.trace = ms ++ w.trace ∧
    ∀ mark ∈ ms, ∀ who, mark.author? = some who → m = .step who ∧
      ∀ id, who = .task id → ∃ t, w.tasks[id]? = some t ∧ t.isLive = true := by
  obtain ⟨who, v, hsigned, hwho, hlast⟩ := move_records hm
  obtain ⟨ms, htrace, hms⟩ := hsigned.authors
  rcases hlast with h | ⟨call, r, h, -⟩
  · exact ⟨ms, h.trans htrace, fun mark hmark a ha => hwho a (hms mark hmark a ha)⟩
  · refine ⟨.answered call r :: ms, by rw [h, htrace, List.cons_append], fun mark hmark a ha => ?_⟩
    rcases List.mem_cons.1 hmark with rfl | hmark
    · cases ha
    · exact hwho a (hms mark hmark a ha)

end World

namespace Fleet

variable {setups : Nat → Setup} {f g : Fleet} {i : Nat} {w v : World}

/-- Nothing that was recorded is ever taken back. -/
theorem Reaches.trace (hr : Reaches setups f g) (hw : f.world? i = some w)
    (hv : g.world? i = some v) : ∃ ms, v.trace = ms ++ w.trace := by
  refine hr.keeps (P := fun v => ∃ ms, v.trace = ms ++ w.trace) (fun _ _ h => h)
    (fun k u u' m hu hm => ?_) (fun u hu => ?_) hv
  · obtain ⟨ms, htrace⟩ := hu
    obtain ⟨new, hnew, -⟩ := World.move_author hm
    exact ⟨new ++ ms, by rw [hnew, htrace, List.append_assoc]⟩
  · cases hw.symm.trans hu
    exact ⟨[], rfl⟩

end Fleet

end Muster
