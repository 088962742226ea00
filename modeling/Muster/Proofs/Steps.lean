import Muster.Proofs.Moves

/-!
# What a step of a task is made of

A task makes its own marks, moves, writes its status and takes its queue (`Acts`). At the end of
such changes it may finish, and then it does no more (`Finishes`). Or a listener that it called
does whatever a call may do, and the task only moves on (`Turn`). `TaskStep.turn` sorts every step
so; what one change keeps, each step keeps.
-/
namespace Muster

/-- Marks that a task makes while it runs, beside taking its queue and writing its status. -/
def Mark.isOwn (id : Nat) : Mark → Bool
  | .called i _ _ | .returned i _ _ _ | .opened i _ _ | .read i _ | .dispatched i _ _ => i = id
  | .stored (.task i) (.subscribe _) _ => i = id
  | _ => false

theorem Task.isEnded_iff {t : Task} : t.isEnded = true ↔ t.position = .ended := by
  unfold isEnded
  split <;> simp_all

theorem Task.isEnded_of_ne {t : Task} (h : t.position ≠ .ended) : t.isEnded = false :=
  Bool.eq_false_iff.2 (mt isEnded_iff.1 h)

theorem Position.clear_eq_ended {p : Position} : p.clear = .ended ↔ p = .ended := by
  unfold Position.clear
  split <;> simp

theorem Stage.clear_clear (stage : Stage) : stage.clear.clear = stage.clear := by
  cases stage <;> rfl

theorem Position.clear_clear (p : Position) : p.clear.clear = p.clear := by
  cases p with
  | calling s pass l cb rest => cases cb <;> simp [Position.clear, Stage.clear_clear]
  | _ => rfl

theorem Position.stream?_clear (p : Position) : p.clear.stream? = p.stream? := by
  unfold Position.clear
  split <;> rfl

namespace World

/-- What a task does itself while it runs. -/
inductive Acts (id : Nat) (t : Task) : World → World → Prop where
  | aside {w w' : World} (h : Aside w w') : Acts id t w w'
  | note (w : World) {m : Mark} (h : m.isOwn id = true) : Acts id t w (w.note m)
  | update (w : World) (f : Task → Task) (hc : ∀ u, (f u).cluster = u.cluster)
      (hg : ∀ u, (f u).generation = u.generation) (hcan : ∀ u, (f u).cancelled = u.cancelled)
      (he : ∀ u, u.isEnded = false → (f u).isEnded = false) :
      Acts id t w (w.updateTask id f)
  | publish (w : World) {s : Status} (hs : s.isTerminal = false) :
      Acts id t w (w.publish id t s)
  | took (w : World) : Acts id t w (w.takePending id t.cluster).2
  | store (w : World) (store : Memory) : Acts id t w { w with store }
  | trans {a b c : World} (h : Acts id t a b) (h' : Acts id t b c) :
      Acts id t a c

namespace Acts

variable {id : Nat} {t : Task} {w w' : World}

theorem quiet (hst : w'.store = w.store) (hl : w'.listeners = w.listeners)
    (hs : w'.slots = w.slots) (hh : w'.handles = w.handles) (ht : w'.tasks = w.tasks)
    (hc : w'.closed = w.closed) (hm : w'.trace = w.trace) : Acts id t w w' :=
  .aside (.quiet hst hl hs hh ht hc hm)

theorem refl (w : World) : Acts id t w w := .aside (.refl w)

theorem count (w : World) (c : Counter) : Acts id t w (w.count c) :=
  .aside (.count w c)

theorem move (w : World) {p : Position} (hp : p ≠ .ended) :
    Acts id t w (w.moveTask id p) :=
  .update w _ (fun _ => rfl) (fun _ => rfl) (fun _ => rfl) fun _ _ => Task.isEnded_of_ne hp

theorem openStream (w : World) (key : String) :
    Acts id t w (w.openStream (.task id) key).2 := by
  rcases perform_cases w (.task id) (.subscribe key) fun s => s.subscribe key with
    ⟨f, faults, h⟩ | ⟨a, store, faults, -, h⟩
  · rw [World.openStream, h]
    have hq : Acts id t w { w with faults } := quiet rfl rfl rfl rfl rfl rfl rfl
    exact hq.trans (.note _ (by simp [Mark.isOwn]))
  · rw [World.openStream, h]
    have hq : Acts id t w { w with faults } := quiet rfl rfl rfl rfl rfl rfl rfl
    exact (hq.trans (.store _ store)).trans (.note _ (by simp [Mark.isOwn]))

theorem closeStream (w : World) (t : Task) : Acts id t w (w.closeStream t) := by
  unfold World.closeStream
  split
  · exact .store w _
  · exact .refl w

theorem applyEvent (w : World) (c m : String) : Acts id t w (w.applyEvent c m).2 := by
  unfold World.applyEvent
  split
  · exact .refl w
  · exact quiet rfl rfl rfl rfl rfl rfl rfl

end Acts

/-- A task acts, and may finish then. -/
inductive Finishes (id : Nat) (t : Task) (w : World) : World → Prop where
  | on {w' : World} (h : Acts id t w w') : Finishes id t w w'
  | off {v : World} {s : Status} (h : Acts id t w v) (hs : s.isTerminal = true) :
      Finishes id t w (v.finishTask id t s)

/-- A task acts, or a listener that it called does. -/
inductive Turn (setup : Setup) (id : Nat) (t : Task) (w : World) : World → Prop where
  | own {w' : World} (h : Finishes id t w w') : Turn setup id t w w'
  | called {v : World} {p : Position} (h : Edits setup w v) (hp : p ≠ .ended) :
      Turn setup id t w (v.moveTask id p)

section
variable {setup : Setup} {id : Nat} {t : Task} {w w' : World}

theorem Acts.finishes {v : World} (h : Acts id t w v) (h' : Finishes id t v w') :
    Finishes id t w w' := by
  cases h' with
  | on hv => exact .on (h.trans hv)
  | off hv hs => exact .off (h.trans hv) hs

theorem dropAttempt_finishes (w : World) :
    Finishes id t w (w.dropAttempt setup id t) := by
  rcases dropAttempt_cases setup w id t with ⟨-, heq⟩ | ⟨-, heq⟩ <;> rw [heq]
  · have hfail : Acts id t w (w.updateTask id fun u => { u with failures := t.failures + 1 }) :=
      .update w _ (fun _ => rfl) (fun _ => rfl) (fun _ => rfl) fun _ h => h
    exact .off (hfail.trans (.count _ .subscriptionFailures)) rfl
  · have hdraw : Acts id t w { w with draws := w.draws + 1 } := .quiet rfl rfl rfl rfl rfl rfl rfl
    have hwait := hdraw.trans (.update _ (fun u => { u with
      failures := t.failures + 1, backoff := t.backoff.next.2
      position := .waiting (w.clock + setup.delay w.draws t.backoff.next.1) })
      (fun _ => rfl) (fun _ => rfl) (fun _ => rfl) fun _ _ => rfl)
    exact .on (hwait.trans (.publish _ rfl))

theorem endAttempt_finishes (w : World) (f : Fault) :
    Finishes id t w (w.endAttempt setup id t f) := by
  have hclose : Acts id t w (w.closeStream t) := .closeStream w t
  unfold endAttempt
  dsimp only
  split
  · exact .off (hclose.trans (.count _ .subscriptionFailures)) rfl
  · exact hclose.finishes (dropAttempt_finishes _)

theorem afterCallback_finishes (w : World) (s : Nat) (pass : Pass) (l : Listener)
    (fault : Option Fault) (rest : List Listener) :
    Finishes id t w (w.afterCallback setup id t s pass l fault rest) := by
  have hnote : Acts id t w (w.note (.returned id l pass.hook fault)) :=
    .note w (by simp [Mark.isOwn])
  have hcount := fun c => hnote.trans (.count _ c)
  unfold afterCallback
  dsimp only
  split
  · exact .on (hnote.trans (.move _ (by simp)))
  · split
    · exact (hcount _).finishes (endAttempt_finishes _ _)
    · exact .on ((hcount _).trans (.move _ (by simp)))
  · exact hnote.finishes (endAttempt_finishes _ _)

theorem call_finishes (w : World) (s : Nat) (pass : Pass) (l : Listener) (rest : List Listener) :
    Finishes id t w (w.call setup id t s pass l rest) := by
  have hnote : Acts id t w (w.note (.called id l pass.hook)) := .note w (by simp [Mark.isOwn])
  unfold call
  dsimp only
  split
  · have hvisit : ∀ (v : World) (visits : Table (String × Bool) Nat),
        Acts id t v { v with visits } := fun _ _ => .quiet rfl rfl rfl rfl rfl rfl rfl
    exact .on ((hnote.trans (hvisit _ _)).trans (.move _ (by simp)))
  · exact (hnote.trans (.applyEvent _ t.cluster _)).finishes (afterCallback_finishes _ _ _ _ _ _)
  · exact .on (hnote.trans (.move _ (by simp)))

theorem settleAction_turn {v : World} (h : Edits setup w v) (s : Nat) (pass : Pass) (l : Listener)
    (rest : List Listener) (name label : String) (more : List (String × Action))
    (fault : Option Fault) (p : Progress) :
    Turn setup id t w (v.settleAction id s pass l rest name label more fault p) := by
  cases p with
  | finished a => exact .called (h.trans (.aside (.note v rfl))) (by simp)
  | paused stage => exact .called h (by simp)

theorem finishPass_acts (w : World) (s : Nat) (pass : Pass) :
    Acts id t w (w.finishPass id t s pass) := by
  cases pass with
  | full =>
    exact (Acts.publish w rfl).trans
      (.update _ _ (fun _ => rfl) (fun _ => rfl) (fun _ => rfl) fun _ _ => rfl)
  | joined => exact .move w (by simp)
  | beforeDelivery m audience => exact .move w (by simp)
  | delivery m => exact .move w (by simp)

theorem beginFullPass_acts (w : World) (s : Nat) :
    Acts id t w (w.beginFullPass id t s) :=
  ((Acts.took w).trans (.note _ (by simp [Mark.isOwn]))).trans (.move _ (by simp))

theorem receive_finishes (w : World) (s : Nat) (payload : String) :
    Finishes id t w (w.receive setup id t s payload) := by
  have hcount : Acts id t w (w.count .eventsReceived) := .count w _
  unfold receive
  split
  · exact endAttempt_finishes w _
  · dsimp only
    split
    · exact (hcount.trans (.count _ .protocolFaults)).finishes (endAttempt_finishes _ _)
    · exact .on (((hcount.trans (.took _)).trans (.note _ (by simp [Mark.isOwn]))).trans
        (.move _ (by simp)))

theorem stopTask_finishes (w : World) : Finishes id t w (w.stopTask id t) := by
  unfold stopTask
  dsimp only
  split
  · exact .off ((Acts.aside (abandon_aside w (.task id) _)).trans (.closeStream _ t)) rfl
  · exact .off (.closeStream w t) rfl

/-- A listener that the task called begins one of its actions, or goes on with it. -/
inductive Called (setup : Setup) (id : Nat) (t : Task) (w : World) : World → Prop where
  | acted {s : Nat} {pass : Pass} {l : Listener} {name label : String} {a : Action}
      {more : List (String × Action)} {fault : Option Fault} {rest : List Listener} {v : World}
      {p : Progress} (h : (w.note (.doing name label)).begin setup (.task id) a = (v, p)) :
      Called setup id t w (v.settleAction id s pass l rest name label more fault p)
  | resumed {s : Nat} {pass : Pass} {l : Listener} {name label : String} {stage : Stage}
      {more : List (String × Action)} {fault : Option Fault} {rest : List Listener} {v : World}
      {p : Progress} (h : w.resume setup (.task id) stage = some (v, p)) :
      Called setup id t w (v.settleAction id s pass l rest name label more fault p)

theorem TaskStep.finishes_or_called (he : t.isEnded = false) (step : TaskStep setup w id t w') :
    Finishes id t w w' ∨ Called setup id t w w' := by
  cases step with
  | parked hp =>
    refine .inl (.on (.move w fun hend => ?_))
    have hclear := Position.clear_eq_ended.1 (hp.symm.trans (Position.clear_eq_ended.2 hend))
    simp [Task.isEnded, hclear] at he
  | refused hp hopen =>
    have hr : Acts id t w _ := .openStream w (registryKey t.cluster)
    rw [hopen] at hr
    exact .inl (hr.finishes (dropAttempt_finishes _))
  | opened hp hopen =>
    have hr : Acts id t w _ := .openStream w (registryKey t.cluster)
    rw [hopen] at hr
    exact .inl (.on (hr.trans (beginFullPass_acts _ _)))
  | passed hp => exact .inl (.on (finishPass_acts w _ _))
  | called hp => exact .inl (call_finishes w _ _ _ _)
  | unread hp hread =>
    have hr := readFields_aside w (.task id) (registryKey t.cluster)
    rw [hread] at hr
    exact .inl ((Acts.aside hr).finishes (afterCallback_finishes _ _ _ _ _ _))
  | read hp hread =>
    have hr := readFields_aside w (.task id) (registryKey t.cluster)
    rw [hread] at hr
    exact .inl (.on ((Acts.aside hr).trans (.move _ (by simp))))
  | replaced hp =>
    exact .inl ((Acts.aside (.updateCache w t.cluster _)).finishes
      (afterCallback_finishes _ _ _ _ _ _))
  | returned hp => exact .inl (afterCallback_finishes w _ _ _ _ _)
  | acted hp hbegin => exact .inr (.acted hbegin)
  | resumed hp hresume => exact .inr (.resumed hresume)
  | woken hp hn hv =>
    subst hv
    have hseen : Acts id t w (w.updateTask id fun t => { t with notified := false }) :=
      .update w _ (fun _ => rfl) (fun _ => rfl) (fun _ => rfl) fun _ h => h
    exact .inl (.on ((hseen.trans (.took _)).trans (.move _ (by simp))))
  | @received s payload store hp hn hnext =>
    have hstore : Acts id t w { w with store } := .store w store
    exact .inl ((hstore.trans (.note _ (by simp [Mark.isOwn]))).finishes (receive_finishes _ _ _))
  | @closed s reading f store hp hn hnext hreading =>
    have hstore : Acts id t w { w with store } := .store w store
    exact .inl ((hstore.trans (.note _ (by simp [Mark.isOwn]))).finishes (endAttempt_finishes _ _))
  | retried hp hd => exact .inl (.on ((Acts.count w _).trans (.move _ (by simp))))

theorem Called.turn (h : Called setup id t w w') : Turn setup id t w w' := by
  cases h with
  | @acted s pass l name label a more fault rest v p hbegin =>
    have hdoing : Edits setup w (w.note (.doing name label)) := .aside (.note w rfl)
    have hedits := @begin_edits setup (w.note (.doing name label)) (.task id) a
    rw [hbegin] at hedits
    exact settleAction_turn (hdoing.trans hedits) _ _ _ _ _ _ _ _ _
  | resumed hresume => exact settleAction_turn (resume_edits hresume) _ _ _ _ _ _ _ _ _

theorem TaskStep.turn (he : t.isEnded = false) (step : TaskStep setup w id t w') :
    Turn setup id t w w' :=
  (step.finishes_or_called he).elim .own Called.turn

end

/-! ## What a step leaves alone -/

end World

/-- The task that made a mark. -/
def Mark.owner? : Mark → Option Nat
  | .called i _ _ | .returned i _ _ _ | .opened i _ _ | .read i _ | .took i _ _
  | .dispatched i _ _ | .published i _ | .ended i => some i
  | .stored (.task i) (.subscribe _) _ => some i
  | _ => none

theorem Mark.owner?_of_isOwn {m : Mark} {id : Nat} (h : m.isOwn id = true) :
    m.owner? = some id := by
  unfold Mark.isOwn at h
  split at h <;> simp_all [Mark.owner?]

theorem Mark.owner?_of_isAside {m : Mark} (h : m.isAside = true) : m.owner? = none := by
  unfold Mark.isAside at h
  split at h <;> simp_all [Mark.owner?]

namespace World

/-- Somebody else goes on: the task stays where it is and makes no mark. -/
structure Elsewhere (id : Nat) (w w' : World) : Prop where
  trace : ∃ ms, w'.trace = ms ++ w.trace ∧ ∀ m ∈ ms, m.owner? ≠ some id
  task : ∀ t, w.tasks[id]? = some t → ∃ t', w'.tasks[id]? = some t' ∧ t'.cluster = t.cluster ∧
    t'.position = t.position ∧ (t.cancelled = true → t'.cancelled = true)
  fresh : w.tasks[id]? = none → ∀ t', w'.tasks[id]? = some t' → t'.position = .opening .arriving

namespace Elsewhere

variable {setup : Setup} {id j : Nat} {t : Task} {w w' : World}

theorem quiet (ht : w'.tasks = w.tasks) (hm : w'.trace = w.trace) : Elsewhere id w w' :=
  ⟨⟨[], by simp [hm]⟩, fun t h => ⟨t, by rw [ht]; exact h, rfl, rfl, fun h => h⟩,
    fun h t' h' => by rw [ht, h] at h'; cases h'⟩

theorem trans {a b c : World} (h : Elsewhere id a b) (h' : Elsewhere id b c) :
    Elsewhere id a c := by
  obtain ⟨ms, hm, hms⟩ := h.trace
  obtain ⟨ms', hm', hms'⟩ := h'.trace
  refine ⟨⟨ms' ++ ms, by simp [hm', hm], fun m hmem => ?_⟩, fun t ht => ?_, fun hnone t' ht' => ?_⟩
  · rcases List.mem_append.1 hmem with hmem | hmem
    · exact hms' m hmem
    · exact hms m hmem
  · obtain ⟨u, hu, hc, hp, hcan⟩ := h.task t ht
    obtain ⟨v, hv, hc', hp', hcan'⟩ := h'.task u hu
    exact ⟨v, hv, hc'.trans hc, hp'.trans hp, fun h => hcan' (hcan h)⟩
  · cases hb : b.tasks[id]? with
    | none => exact h'.fresh hb t' ht'
    | some u =>
      obtain ⟨v, hv, -, hp, -⟩ := h'.task u hb
      rw [ht'] at hv
      cases hv
      exact hp.trans (h.fresh hnone u hb)

theorem note (w : World) {m : Mark} (hm : m.owner? ≠ some id) : Elsewhere id w (w.note m) :=
  ⟨⟨[m], rfl, by simpa using hm⟩, fun t h => ⟨t, h, rfl, rfl, fun h => h⟩,
    fun h t' h' => by simp [World.note, h] at h'⟩

/-- Another task is changed, or only what does not matter to the task. -/
theorem updateTask (w : World) (j : Nat) (f : Task → Task)
    (hf : j = id → ∀ u, (f u).cluster = u.cluster ∧ (f u).position = u.position ∧
      (u.cancelled = true → (f u).cancelled = true)) : Elsewhere id w (w.updateTask j f) := by
  refine ⟨⟨[], rfl, by simp⟩, fun t ht => ?_, fun h t' h' => ?_⟩
  · by_cases hj : j = id
    · obtain ⟨hc, hp, hcan⟩ := hf hj t
      exact ⟨f t, by simp [World.updateTask, hj, ht], hc, hp, hcan⟩
    · exact ⟨t, by simp [World.updateTask, hj, ht], rfl, rfl, fun h => h⟩
  · simp only [World.updateTask, List.getElem?_modify, h, Option.map_eq_map, Option.map_none] at h'
    cases h'

theorem cancel (w : World) (j : Nat) : Elsewhere id w (w.cancel j) := by
  have hflag : Elsewhere id w (w.updateTask j fun t => { t with cancelled := true }) :=
    updateTask w j _ fun _ u => ⟨rfl, rfl, fun _ => rfl⟩
  exact hflag.trans (note _ (by simp [Mark.owner?]))

theorem aside (h : Aside w w') : Elsewhere id w w' := by
  obtain ⟨ms, hms, hm⟩ := h.trace
  refine ⟨⟨ms, hm, fun m hmem => ?_⟩, ?_, ?_⟩
  · rw [Mark.owner?_of_isAside (hms m hmem)]
    simp
  · exact (quiet (w := { w with trace := w'.trace }) h.tasks rfl).task
  · exact (quiet (w := { w with trace := w'.trace }) h.tasks rfl).fresh

theorem edits (e : Edits setup w w') : Elsewhere id w w' := by
  induction e with
  | aside h => exact aside h
  | attach w c l =>
    unfold World.attach
    split
    · exact quiet rfl rfl
    · split
      · have hlist : Elsewhere id w { w with listeners := (w.listeners.enqueue c l).add c l } :=
          quiet rfl rfl
        exact (hlist.trans (note _ (by simp [Mark.owner?]))).trans
          (updateTask _ _ _ fun _ u => ⟨rfl, rfl, fun h => h⟩)
      · refine ⟨⟨[.spawned w.tasks.length c ((w.slots.get? c).getD {}).begin.generation,
          .attached c l false], rfl, by simp [Mark.owner?]⟩, fun t ht => ?_, fun hnone t' ht' => ?_⟩
        · have hlt := (List.getElem?_eq_some_iff.1 ht).1
          exact ⟨t, by simp [spawn, World.note, World.count, List.getElem?_append_left hlt, ht],
            rfl, rfl, fun h => h⟩
        · simp only [spawn, World.note, World.count, List.getElem?_append] at ht'
          split at ht'
          · rw [hnone] at ht'
            cases ht'
          · rw [List.getElem?_singleton] at ht'
            split at ht'
            · cases ht'
              rfl
            · cases ht'
  | detach w c name =>
    unfold World.detach
    have removed : ∀ (listeners : Listeners Listener) (handles : Table String Nat),
        Elsewhere id w (({ w with listeners, handles } : World).note (.detached c (.user name))) :=
      fun _ _ => ⟨⟨[.detached c (.user name)], rfl, by simp [Mark.owner?]⟩,
        fun t ht => ⟨t, ht, rfl, rfl, fun h => h⟩, fun h t' h' => by
          simp only [World.note] at h'
          rw [h] at h'
          cases h'⟩
    split
    · exact quiet rfl rfl
    · dsimp only
      split
      · exact removed _ _
      · exact (removed _ _).trans (cancel _ _)
    · exact removed _ _
  | close w =>
    refine ⟨⟨[], rfl, by simp⟩, fun t ht => ?_, fun h t' h' => ?_⟩
    · exact ⟨{ t with cancelled := true }, by simp [World.close, cancelAll, ht], rfl, rfl,
        fun _ => rfl⟩
    · simp [World.close, cancelAll, h] at h'
  | trans _ _ ih ih' => exact ih.trans ih'

theorem publish (w : World) (hj : j ≠ id) (t : Task) (s : Status) :
    Elsewhere id w (w.publish j t s) := by
  unfold World.publish
  split
  · exact quiet rfl rfl
  · split
    · have hslot : ∀ slots : Table String Slot, Elsewhere id w { w with slots } :=
        fun _ => quiet rfl rfl
      exact (hslot _).trans (note _ (by simpa [Mark.owner?] using hj))
    · exact quiet rfl rfl

theorem acts (hj : j ≠ id) (a : Acts j t w w') : Elsewhere id w w' := by
  induction a with
  | aside ha => exact aside ha
  | note w hm => exact note w (by simpa [Mark.owner?_of_isOwn hm] using hj)
  | update w f => exact updateTask w j f fun h => absurd h hj
  | publish w => exact publish w hj t _
  | took w =>
    have hlist : ∀ listeners : Listeners Listener, Elsewhere id w { w with listeners } :=
      fun _ => quiet rfl rfl
    exact (hlist _).trans (note _ (by simpa [Mark.owner?] using hj))
  | store w => exact quiet rfl rfl
  | trans _ _ ih ih' => exact ih.trans ih'

theorem finishes (hj : j ≠ id) (h : Finishes j t w w') : Elsewhere id w w' := by
  cases h with
  | on ha => exact acts hj ha
  | off ha =>
    exact ((acts hj ha).trans (publish _ hj t _)).trans
      ((updateTask _ j _ fun h => absurd h hj).trans (note _ (by simpa [Mark.owner?] using hj)))

theorem turn (hj : j ≠ id) (h : Turn setup j t w w') : Elsewhere id w w' := by
  cases h with
  | own hw => exact finishes hj hw
  | called he => exact (edits he).trans (updateTask _ j _ fun h => absurd h hj)

/-- A task moves only by its own steps, but for its command that is let through a gate. -/
theorem move {m : Move} (hm : w.move setup m = some w') (hne : m ≠ .step (.task id)) :
    m = .clear (.task id) ∨ Elsewhere id w w' := by
  cases m with
  | step who =>
    cases who with
    | call c => exact .inr (.edits (stepCall_edits hm))
    | task j =>
      have hj : j ≠ id := fun hj => hne (hj ▸ rfl)
      obtain ⟨u, hu, hm⟩ := Option.bind_eq_some_iff.1 hm
      unfold stepTask at hm
      split at hm
      · cases hm
      · next he =>
        split at hm
        · cases hm
          exact .inr (.finishes hj (stopTask_finishes w))
        · exact .inr (.turn hj ((advanceTask_cases hm).turn (by simpa using he)))
  | ask c a =>
    simp only [World.move] at hm
    split at hm <;> cases hm
    exact .inr (.edits (ask_edits w c a))
  | drop c =>
    cases hm
    exact .inr (.edits (@dropCall_edits setup w c))
  | clear who =>
    cases hm
    cases who with
    | call c => exact .inr (.quiet rfl rfl)
    | task j =>
      by_cases hj : j = id
      · exact .inl (by rw [hj])
      · exact .inr (.updateTask w j _ fun he => absurd he hj)
  | free _ | elapse _ =>
    cases hm
    exact .inr (.quiet rfl rfl)

end Elsewhere

variable {setup : Setup} {id : Nat} {t t' : Task} {w w' : World}

/-- Others let a task stand where it is. -/
theorem stands_still {m : Move} (ht : w.tasks[id]? = some t) (hm : w.move setup m = some w')
    (hne : m ≠ .step (.task id)) :
    ∃ t', w'.tasks[id]? = some t' ∧ t'.position.clear = t.position.clear := by
  rcases Elsewhere.move hm hne with rfl | h
  · cases hm
    exact ⟨_, by simp [clear, World.updateTask, ht]; rfl, Position.clear_clear _⟩
  · obtain ⟨t', ht', -, hp, -⟩ := h.task t ht
    exact ⟨t', ht', by rw [hp]⟩

/-- A task that has a stream after somebody else's move stood there before. -/
theorem stood_still {m : Move} {s : Nat} (ht' : w'.tasks[id]? = some t')
    (hstream : t'.position.stream? = some s) (hm : w.move setup m = some w')
    (hne : m ≠ .step (.task id)) :
    ∃ t, w.tasks[id]? = some t ∧ t'.position.clear = t.position.clear := by
  cases ht : w.tasks[id]? with
  | some t =>
    obtain ⟨u, hu, hp⟩ := stands_still ht hm hne
    cases hu.symm.trans ht'
    exact ⟨t, rfl, hp⟩
  | none =>
    rcases Elsewhere.move hm hne with rfl | h
    · cases hm
      simp [clear, World.updateTask, ht] at ht'
    · rw [h.fresh ht t' ht'] at hstream
      cases hstream

end World

end Muster
