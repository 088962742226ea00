import Muster.Fleet
import Muster.Proofs.Streams

/-!
# What one move can do

The steps of a client, sorted once and for all. A call changes the subscriptions only by attaching
or detaching listeners or by a shutdown (`Edits`); everything else it does lies `Aside`. A task
that goes on takes one of the steps of `TaskStep`. `move_cases` puts them together, so that an
invariant is checked case by case and no step has to be unfolded again.
-/
namespace Muster

/-- Marks that say nothing about listeners, tasks or streams. -/
def Mark.isAside : Mark → Bool
  | .stored _ (.subscribe _) _ => false
  | .stored _ _ _ | .doing _ _ | .did _ _ _ | .asked _ _ | .answered _ _ => true
  | _ => false

/-- Actions that change who listens, or shut the client down. -/
def Action.isEdit : Action → Bool
  | .attach _ _ | .detach _ _ _ | .shutdown => true
  | _ => false

namespace World

/-- Listeners, tasks, status and streams stay as they are, and only marks beside them are made. -/
structure Aside (w w' : World) : Prop where
  store : w.store.Calm w'.store
  listeners : w'.listeners = w.listeners
  slots : w'.slots = w.slots
  handles : w'.handles = w.handles
  tasks : w'.tasks = w.tasks
  closed : w'.closed = w.closed
  trace : ∃ ms, (∀ m ∈ ms, m.isAside = true) ∧ w'.trace = ms ++ w.trace

namespace Aside

theorem quiet {w w' : World} (hst : w'.store = w.store) (hl : w'.listeners = w.listeners)
    (hs : w'.slots = w.slots) (hh : w'.handles = w.handles) (ht : w'.tasks = w.tasks)
    (hc : w'.closed = w.closed) (hm : w'.trace = w.trace) : Aside w w' :=
  ⟨hst ▸ .refl _, hl, hs, hh, ht, hc, [], by simp, by simp [hm]⟩

theorem stored (w : World) {store : Memory} (h : w.store.Calm store) :
    Aside w { w with store } := ⟨h, rfl, rfl, rfl, rfl, rfl, [], by simp, rfl⟩

theorem refl (w : World) : Aside w w := quiet rfl rfl rfl rfl rfl rfl rfl

theorem trans {a b c : World} (h : Aside a b) (h' : Aside b c) : Aside a c := by
  obtain ⟨ms, hms, hm⟩ := h.trace
  obtain ⟨ms', hms', hm'⟩ := h'.trace
  refine ⟨h.store.trans h'.store, h'.listeners.trans h.listeners, h'.slots.trans h.slots, h'.handles.trans h.handles,
    h'.tasks.trans h.tasks, h'.closed.trans h.closed, ms' ++ ms, ?_, by simp [hm', hm]⟩
  intro m hmem
  rcases List.mem_append.1 hmem with h | h
  · exact hms' m h
  · exact hms m h

theorem note (w : World) {m : Mark} (hm : m.isAside = true) : Aside w (w.note m) :=
  ⟨.refl _, rfl, rfl, rfl, rfl, rfl, [m], by simpa using hm, rfl⟩

theorem count (w : World) (c : Counter) : Aside w (w.count c) := quiet rfl rfl rfl rfl rfl rfl rfl

theorem updateCache (w : World) (c : String) (f : Membership Actor → Membership Actor) :
    Aside w (w.updateCache c f) := quiet rfl rfl rfl rfl rfl rfl rfl

theorem updateCell (w : World) (c : String) (f : Cell Actor → Cell Actor) :
    Aside w (w.updateCell c f) := quiet rfl rfl rfl rfl rfl rfl rfl

end Aside

/-! ## Commands to the store -/

/-- What a command leads to, as far as the client sees it. -/
theorem perform_cases {α : Type} (w : World) (who : Actor) (call : StoreCall)
    (command : Memory → Except Fault (α × Memory)) :
    (∃ f faults, w.perform who call command =
      (.error f, { w with faults }.note (.stored who call (some f)))) ∨
    (∃ a store faults, command w.store = .ok (a, store) ∧ w.perform who call command =
      (.ok a, { w with faults, store }.note (.stored who call none))) := by
  have hlaid : ∃ faults, (w.takeFault call.method).2 = { w with faults } := by
    unfold takeFault
    split
    · exact ⟨_, rfl⟩
    · exact ⟨w.faults, rfl⟩
  obtain ⟨faults, hf⟩ := hlaid
  unfold perform
  generalize hr : w.takeFault call.method = r at hf
  obtain ⟨laid, w₁⟩ := r
  subst hf
  cases laid with
  | some f => exact .inl ⟨f, faults, rfl⟩
  | none =>
    cases hc : command w.store with
    | error f => exact .inl ⟨f, faults, by simp [hc]⟩
    | ok r => exact .inr ⟨r.1, r.2, faults, rfl, by simp [hc]⟩

theorem perform_aside {α : Type} (w : World) (who : Actor) {call : StoreCall}
    (command : Memory → Except Fault (α × Memory)) (h : (Mark.stored who call none).isAside)
    (hcalm : ∀ a m, command w.store = .ok (a, m) → w.store.Calm m) :
    Aside w (w.perform who call command).2 := by
  have h' : ∀ f, (Mark.stored who call f).isAside = true := by
    intro f
    cases call <;> first | rfl | cases h
  have hfaults : ∀ faults, Aside w { w with faults } := fun _ => .quiet rfl rfl rfl rfl rfl rfl rfl
  rcases perform_cases w who call command with ⟨f, faults, hp⟩ | ⟨a, store, faults, hc, hp⟩
  · rw [hp]
    exact (hfaults faults).trans (.note _ (h' _))
  · rw [hp]
    exact ((hfaults faults).trans (.stored _ (hcalm a store hc))).trans (.note _ (h' _))

theorem setField_aside (w : World) (who : Actor) (key field value : String) :
    Aside w (w.setField who key field value).2 :=
  perform_aside w who _ rfl fun _ m h => by
    cases hs : w.store.setField key field value with
    | error f => simp [hs, Except.map] at h
    | ok m' =>
      have hm : m' = m := by simpa [hs, Except.map] using h
      exact hm ▸ Memory.setField_calm hs

theorem deleteField_aside (w : World) (who : Actor) (key field : String) :
    Aside w (w.deleteField who key field).2 :=
  perform_aside w who _ rfl fun _ _ h => Memory.deleteField_calm h

theorem readFields_aside (w : World) (who : Actor) (key : String) :
    Aside w (w.readFields who key).2 :=
  perform_aside w who _ rfl fun _ m h => by
    cases hs : w.store.fields key with
    | error f => simp [hs, Except.map] at h
    | ok fields =>
      simp only [hs, Except.map, Except.ok.injEq, Prod.mk.injEq] at h
      exact h.2 ▸ .refl _

theorem publishMessage_aside (w : World) (who : Actor) (key message : String) :
    Aside w (w.publishMessage who key message).2 :=
  perform_aside w who _ rfl fun _ _ h => Memory.publish_calm h

/-! ## Calls -/

/-- What calls do to the subscriptions: listeners come and go, or the client is shut down. -/
inductive Edits (setup : Setup) : World → World → Prop where
  | aside {w w' : World} (h : Aside w w') : Edits setup w w'
  | attach (w : World) (c : String) (l : Listener) : Edits setup w (w.attach setup c l).2
  | detach (w : World) (c name : String) : Edits setup w (w.detach c (.user name)).2.2
  | close (w : World) : Edits setup w w.close.2
  | trans {a b c : World} (h : Edits setup a b) (h' : Edits setup b c) : Edits setup a c

variable {setup : Setup}

theorem Edits.refl (w : World) : Edits setup w w := .aside (.refl w)

theorem attach_store (w : World) (c : String) (l : Listener) :
    (w.attach setup c l).2.store = w.store := by
  unfold attach
  split
  · rfl
  · split <;> rfl

theorem detach_store (w : World) (c : String) (l : Listener) :
    (w.detach c l).2.2.store = w.store := by
  unfold detach
  split
  · rfl
  · dsimp only
    split <;> rfl
  · rfl

theorem Edits.store {w w' : World} (e : Edits setup w w') : w.store.Calm w'.store := by
  induction e with
  | aside h => exact h.store
  | «attach» w c l => exact attach_store w c l ▸ .refl _
  | detach w c name => exact detach_store w c (.user name) ▸ .refl _
  | close w => exact .refl _
  | trans _ _ ih ih' => exact ih.trans ih'

theorem failLoad_aside (w : World) (load : Load) (f : Fault) : Aside w (w.failLoad load f).1 :=
  .updateCell w _ _

theorem finishLoad_aside (w : World) (load : Load) : Aside w (w.finishLoad load).1 :=
  .updateCell w load.cluster fun _ => .loaded

theorem awaitStart_aside (w : World) (load : Load) : Aside w (w.awaitStart load).1 := by
  unfold awaitStart
  split
  · split
    · exact finishLoad_aside w load
    · exact .refl w
  · exact finishLoad_aside w load

theorem beginLoad_aside (w : World) (who : Actor) (key : String) (view : Bool) :
    Aside w (w.beginLoad setup who key view).1 := by
  unfold beginLoad
  split
  · exact .refl w
  · have hcount := Aside.count w .lookups
    dsimp only
    split
    · exact hcount
    · have henter := hcount.trans (.updateCell (w.count .lookups) ‹String› (Cell.enter who))
      split
      · exact henter
      · split <;> exact henter
      · exact henter

theorem takeSnapshot_edits (w : World) (load : Load) (fields : List (String × String)) :
    Edits setup w (w.takeSnapshot setup load fields).1 := by
  unfold takeSnapshot
  dsimp only
  generalize hv : ({ (w.updateCache load.cluster fun m => m.replace (addressesOf fields)) with
    updaters := (w.updateCache load.cluster fun m => m.replace (addressesOf fields)).updaters + 1 }
      : World) = v
  have hbefore : Aside w v := hv ▸ .quiet rfl rfl rfl rfl rfl rfl rfl
  have hattach := @Edits.attach setup v load.cluster
    (.updater load.cluster (w.updateCache load.cluster fun m => m.replace (addressesOf fields)).updaters)
  split
  · next h =>
    rw [h] at hattach
    exact ((Edits.aside hbefore).trans hattach).trans (.aside (failLoad_aside _ _ _))
  · next h =>
    rw [h] at hattach
    exact ((Edits.aside hbefore).trans hattach).trans (.aside (awaitStart_aside _ _))

theorem beginChange_fst (w : World) (k : EventKind) (text : String) :
    (w.beginChange k text).1 = w := by
  unfold beginChange
  split
  · rfl
  · split
    · rfl
    · split <;> rfl

theorem sendAll_aside (key : String) (ms : List String) (w : World) (n : Nat) :
    Aside w (w.sendAll key n ms).1 := by
  induction ms generalizing w n with
  | nil => exact .refl w
  | cons m rest ih =>
    unfold sendAll
    split
    · exact .refl w
    · next n' store hsend =>
      have hsent : Aside w { w with store } := .stored w (Memory.publish_calm hsend)
      exact hsent.trans (ih _ _)

/-- Whatever a call begins lies aside, unless it attaches or detaches a listener or is a shutdown. -/
theorem begin_aside (w : World) (who : Actor) {a : Action} (ha : a.isEdit = false) :
    Aside w (w.begin setup who a).1 := by
  cases a with
  | register text =>
    rw [begin, beginChange_fst]
    exact .refl w
  | unregister text =>
    rw [begin, beginChange_fst]
    exact .refl w
  | lookup key => exact beginLoad_aside w who key false
  | view key => exact beginLoad_aside w who key true
  | «attach» | detach | shutdown => cases ha
  | awaitSettled c =>
    simp only [begin, beginWatch]
    split
    · exact .refl w
    · split <;> exact .refl w
  | awaitStarted c =>
    simp only [begin, beginWatch]
    split
    · exact .refl w
    · split <;> exact .refl w
  | send key ms => exact sendAll_aside key ms w 0
  | putField key field value =>
    simp only [begin]
    split
    · exact .refl w
    · next hs => exact .stored w (Memory.setField_calm hs)
  | dropField key field =>
    simp only [begin]
    split
    · exact .refl w
    · next hs => exact .stored w (Memory.deleteField_calm hs)
  | readHash key =>
    simp only [begin]
    split <;> exact .refl w
  | disconnect key => exact .stored w (Memory.disconnect_calm w.store key)
  | setUnavailable value => exact .stored w (Memory.setUnavailable_calm w.store value)
  | _ => exact .quiet rfl rfl rfl rfl rfl rfl rfl

theorem begin_edits (w : World) (who : Actor) (a : Action) :
    Edits setup w (w.begin setup who a).1 := by
  cases a with
  | «attach» c l => exact .attach w c (.user l)
  | detach c l guarded =>
    simp only [begin, beginDetach]
    split
    · exact .refl w
    · have h := @Edits.detach setup w c l
      split <;> next hd => rw [hd] at h; exact h
  | shutdown =>
    have h := @Edits.close setup w
    simp only [begin, drain]
    split <;> exact h
  | _ => exact .aside (begin_aside w who rfl)

theorem write_aside (w : World) (who : Actor) (e : Event) : Aside w (w.write setup who e).1 := by
  unfold write
  have hset := setField_aside w who setup.config.ownKey e.address.text setup.config.identity
  have hdel := deleteField_aside w who setup.config.ownKey e.address.text
  cases e.kind <;> dsimp only <;> split <;> assumption

theorem announce_aside (w : World) (who : Actor) (e : Event) :
    Aside w (w.announce setup who e).1 := by
  unfold announce
  have h := publishMessage_aside w who setup.config.ownKey e.encode
  split
  · next hp => rw [hp] at h; exact h
  · next hp => rw [hp] at h; exact h.trans (.count _ _)

theorem read_aside (w : World) (who : Actor) (load : Load) : Aside w (w.read who load).1 := by
  unfold read
  have h := readFields_aside w who (registryKey load.cluster)
  split
  · next hp => rw [hp] at h; exact h.trans (failLoad_aside _ _ _)
  · next hp => rw [hp] at h; exact h

/-- A command at a gate stays, is held up without any effect, or is carried out. -/
theorem throughGate_cases {w : World} {m : Method} {g : Gate} {hold : Stage}
    {go r : World × Progress} (h : w.throughGate m g hold go = some r) :
    r = (w, .paused hold) ∨ r = go := by
  unfold throughGate at h
  split at h
  · cases h
  · exact .inl (Option.some.inj h).symm
  · exact .inr (Option.some.inj h).symm

/-- A call that goes on lies aside, unless the reply of the hash has come to it. -/
theorem resume_aside {w w' : World} {who : Actor} {stage : Stage} {p : Progress}
    (hstage : ∀ load fields g, stage ≠ .replied load fields g)
    (h : w.resume setup who stage = some (w', p)) : Aside w w' := by
  have gate : ∀ {m : Method} {g : Gate} {hold : Stage} {go : World × Progress},
      w.throughGate m g hold go = some (w', p) → Aside w go.1 → Aside w w' := by
    intro m g hold go hgate hgo
    rcases throughGate_cases hgate with hr | hr
    · cases hr; exact .refl w
    · subst hr; exact hgo
  cases stage with
  | writing e g => exact gate h (write_aside w who e)
  | announcing e g => exact gate h (announce_aside w who e)
  | reading load g => exact gate h (read_aside w who load)
  | replied load fields g => exact absurd rfl (hstage load fields g)
  | queued load =>
    simp only [resume] at h
    split at h
    · cases h; exact .refl w
    · split at h
      · cases h; exact .refl w
      · cases h
    · cases h
  | starting load seen =>
    simp only [resume] at h
    split at h
    · split at h
      · cases h
      · have hw : (w.awaitStart load).1 = w' := congrArg Prod.fst (Option.some.inj h)
        exact hw ▸ awaitStart_aside w load
    · cases h
  | watching c goal seen =>
    simp only [resume, beginWatch] at h
    split at h
    · split at h
      · cases h
      · have hw := (Prod.ext_iff.1 (Option.some.inj h)).1
        simp only at hw
        revert hw
        split
        · rintro rfl; exact .refl _
        · split <;> (rintro rfl; exact .refl _)
    · cases h
  | joining id =>
    simp only [resume] at h
    split at h
    · cases h; exact .refl w
    · cases h
  | draining ids =>
    simp only [resume, drain] at h
    split at h
    · split at h
      · have hw := (Prod.ext_iff.1 (Option.some.inj h)).1
        simp only at hw
        revert hw
        split <;> (rintro rfl; exact .refl _)
      · cases h
    · cases h; exact .refl w

theorem resume_edits {w w' : World} {who : Actor} {stage : Stage} {p : Progress}
    (h : w.resume setup who stage = some (w', p)) : Edits setup w w' := by
  cases stage with
  | replied load fields g =>
    rcases throughGate_cases h with hr | hr
    · cases hr; exact .refl w
    · have hv : w' = (w.takeSnapshot setup load fields).1 := congrArg Prod.fst hr
      exact hv ▸ takeSnapshot_edits w load fields
  | _ => exact .aside (resume_aside (by simp) h)

theorem abandon_aside (w : World) (who : Actor) (stage : Stage) :
    Aside w (w.abandon who stage) := by
  cases stage with
  | queued load => exact .updateCell w load.cluster (Cell.leave who)
  | reading load => exact .updateCell w load.cluster (Cell.leave who)
  | replied load => exact .updateCell w load.cluster (Cell.leave who)
  | starting load => exact .updateCell w load.cluster (Cell.leave who)
  | _ => exact .refl w

theorem settleCall_aside (w : World) (id : Nat) (p : Progress) : Aside w (w.settleCall id p) := by
  cases p with
  | finished a =>
    exact Aside.trans (b := { w with calls := w.calls.erase id }) (.quiet rfl rfl rfl rfl rfl rfl rfl)
      (.note _ rfl)
  | paused stage => exact .quiet rfl rfl rfl rfl rfl rfl rfl

theorem ask_edits (w : World) (id : Nat) (a : Action) : Edits setup w (w.ask setup id a) :=
  ((Edits.aside (.note w rfl)).trans (begin_edits _ (.call id) a)).trans
    (.aside (settleCall_aside _ id _))

theorem stepCall_edits {w w' : World} {id : Nat} (h : w.stepCall setup id = some w') :
    Edits setup w w' := by
  unfold stepCall at h
  split at h
  · cases h
  · obtain ⟨⟨v, p⟩, hr, rfl⟩ := Option.map_eq_some_iff.1 h
    exact (resume_edits hr).trans (.aside (settleCall_aside v id p))

theorem dropCall_edits (w : World) (id : Nat) : Edits setup w (w.dropCall id) := by
  unfold dropCall
  split
  · exact .refl w
  · exact .aside ((abandon_aside w (.call id) ‹Stage›).trans (.quiet rfl rfl rfl rfl rfl rfl rfl))

/-! ## Tasks -/

/-- A task whose attempt was dropped fails if this was the last one or its waits have a limit, and
else it waits. -/
theorem dropAttempt_cases (setup : Setup) (w : World) (id : Nat) (t : Task) :
    ((0 < setup.config.restart.maxAttempts ∧ setup.config.restart.maxAttempts ≤ t.failures + 1 ∨
        t.backoff.patience ≠ none) ∧
      w.dropAttempt setup id t =
        (w.updateTask id fun u => { u with failures := t.failures + 1 }).failTask id t) ∨
    ((0 < setup.config.restart.maxAttempts →
        t.failures + 1 < setup.config.restart.maxAttempts) ∧
      w.dropAttempt setup id t = World.publish (World.updateTask { w with draws := w.draws + 1 } id
        fun u => { u with
          failures := t.failures + 1, backoff := t.backoff.next.2
          position := .waiting (w.clock + setup.delay w.draws t.backoff.next.1) })
        id t .reconnecting) := by
  unfold dropAttempt
  dsimp only
  split
  · next hlast => exact .inl ⟨.inl hlast, rfl⟩
  · next hleft =>
    split
    · next hwait => exact .inl ⟨.inr (Backoff.patience_of_wait_eq_none hwait), rfl⟩
    · next hwait =>
      obtain ⟨rfl, rfl⟩ := Backoff.of_wait_eq_some hwait
      exact .inr ⟨fun hpos => by omega, rfl⟩

/-- The steps of a task that does not look at its cancellation. -/
inductive TaskStep (setup : Setup) (w : World) (id : Nat) (t : Task) : World → Prop where
  /-- A command is held up. -/
  | parked {p : Position} (h : p.clear = t.position.clear) : TaskStep setup w id t (w.moveTask id p)
  | refused {g : Gate} {f : Fault} {v : World} (hp : t.position = .opening g)
      (h : w.openStream (.task id) (registryKey t.cluster) = (.error f, v)) :
      TaskStep setup w id t (v.dropAttempt setup id t)
  | opened {g : Gate} {s : Nat} {v : World} (hp : t.position = .opening g)
      (h : w.openStream (.task id) (registryKey t.cluster) = (.ok s, v)) :
      TaskStep setup w id t (v.beginFullPass id t s)
  | passed {s : Nat} {pass : Pass} (hp : t.position = .passing s pass []) :
      TaskStep setup w id t (w.finishPass id t s pass)
  | called {s : Nat} {pass : Pass} {l : Listener} {rest : List Listener}
      (hp : t.position = .passing s pass (l :: rest)) :
      TaskStep setup w id t (w.call setup id t s pass l rest)
  | unread {s : Nat} {pass : Pass} {l : Listener} {g : Gate} {rest : List Listener} {f : Fault}
      {v : World} (hp : t.position = .calling s pass l (.reading g) rest)
      (h : w.readFields (.task id) (registryKey t.cluster) = (.error f, v)) :
      TaskStep setup w id t (v.afterCallback setup id t s pass l (some f) rest)
  | read {s : Nat} {pass : Pass} {l : Listener} {g : Gate} {rest : List Listener}
      {fields : List (String × String)} {v : World}
      (hp : t.position = .calling s pass l (.reading g) rest)
      (h : w.readFields (.task id) (registryKey t.cluster) = (.ok fields, v)) :
      TaskStep setup w id t (v.moveTask id (.calling s pass l (.replied fields .arriving) rest))
  | replaced {s : Nat} {pass : Pass} {l : Listener} {g : Gate} {rest : List Listener}
      {fields : List (String × String)}
      (hp : t.position = .calling s pass l (.replied fields g) rest) :
      TaskStep setup w id t ((w.updateCache t.cluster fun m =>
        m.replace (addressesOf fields)).afterCallback setup id t s pass l none rest)
  | returned {s : Nat} {pass : Pass} {l : Listener} {name : String} {fault : Option Fault}
      {rest : List Listener} (hp : t.position = .calling s pass l (.acting name [] fault) rest) :
      TaskStep setup w id t (w.afterCallback setup id t s pass l fault rest)
  | acted {s : Nat} {pass : Pass} {l : Listener} {name label : String} {a : Action}
      {more : List (String × Action)} {fault : Option Fault} {rest : List Listener} {v : World}
      {p : Progress}
      (hp : t.position = .calling s pass l (.acting name ((label, a) :: more) fault) rest)
      (h : (w.note (.doing name label)).begin setup (.task id) a = (v, p)) :
      TaskStep setup w id t (v.settleAction id s pass l rest name label more fault p)
  | resumed {s : Nat} {pass : Pass} {l : Listener} {name label : String} {stage : Stage}
      {more : List (String × Action)} {fault : Option Fault} {rest : List Listener} {v : World}
      {p : Progress}
      (hp : t.position = .calling s pass l (.awaiting name label stage more fault) rest)
      (h : w.resume setup (.task id) stage = some (v, p)) :
      TaskStep setup w id t (v.settleAction id s pass l rest name label more fault p)
  /-- Somebody joined. -/
  | woken {s : Nat} {v : World} (hp : t.position = .listening s) (hn : t.notified = true)
      (hv : v = w.updateTask id fun t => { t with notified := false }) :
      TaskStep setup w id t ((v.takePending id t.cluster).2.moveTask id
        (.passing s .joined (v.takePending id t.cluster).1))
  | received {s : Nat} {payload : String} {store : Memory} (hp : t.position = .listening s)
      (hn : t.notified = false)
      (h : w.store.next (registryKey t.cluster) s = (.message payload, store)) :
      TaskStep setup w id t
        (({ w with store }.note (.read id (.message payload))).receive setup id t s payload)
  /-- The stream has come to an end, or lost items. -/
  | closed {s : Nat} {r : Reading} {f : Fault} {store : Memory} (hp : t.position = .listening s)
      (hn : t.notified = false) (h : w.store.next (registryKey t.cluster) s = (r, store))
      (hr : r = .ended ∧ f = streamClosed t.cluster ∨
        ∃ n, r = .lagged n ∧ f = Memory.lagFault n) :
      TaskStep setup w id t (({ w with store }.note (.read id r)).endAttempt setup id t f)
  | retried {due : Nat} (hp : t.position = .waiting due) (hd : due ≤ w.clock) :
      TaskStep setup w id t ((w.count .subscriptionRestarts).moveTask id (.opening .arriving))

theorem resumeCallback_cases {w w' : World} {id : Nat} {t : Task} {s : Nat} {pass : Pass}
    {l : Listener} {rest : List Listener} {cb : Callback}
    (hp : t.position = .calling s pass l cb rest)
    (h : w.resumeCallback setup id t s pass l rest cb = some w') : TaskStep setup w id t w' := by
  cases cb with
  | reading g =>
    simp only [resumeCallback] at h
    split at h
    · cases h
    · cases h
      exact .parked (by rw [hp]; rfl)
    · split at h
      · next hr =>
        cases h
        exact .unread hp hr
      · next hr =>
        cases h
        exact .read hp hr
  | replied fields g =>
    simp only [resumeCallback] at h
    split at h
    · cases h
    · cases h
      exact .parked (by rw [hp]; rfl)
    · cases h
      exact .replaced hp
  | acting name actions fault =>
    cases actions with
    | nil =>
      cases h
      exact .returned hp
    | cons a more =>
      cases h
      exact .acted hp rfl
  | awaiting name label stage more fault =>
    obtain ⟨⟨v, p⟩, hr, rfl⟩ := Option.map_eq_some_iff.1 h
    exact .resumed hp hr

theorem listen_cases {w w' : World} {id : Nat} {t : Task} {s : Nat}
    (hp : t.position = .listening s) (h : w.listen setup id t s = some w') :
    TaskStep setup w id t w' := by
  unfold listen at h
  split at h
  · next hn =>
    cases h
    exact .woken hp hn rfl
  · next hn =>
    have hn : t.notified = false := by simpa using hn
    generalize hr : w.store.next (registryKey t.cluster) s = r at h
    obtain ⟨reading, store⟩ := r
    cases reading with
    | pending => simp at h
    | message payload =>
      cases h
      exact .received hp hn hr
    | lagged n =>
      cases h
      exact .closed hp hn hr (.inr ⟨n, rfl, rfl⟩)
    | ended =>
      cases h
      exact .closed hp hn hr (.inl ⟨rfl, rfl⟩)

theorem advanceTask_cases {w w' : World} {id : Nat} {t : Task}
    (h : w.advanceTask setup id t = some w') : TaskStep setup w id t w' := by
  unfold advanceTask at h
  split at h
  · next g hp =>
    split at h
    · cases h
    · cases h
      exact .parked (by rw [hp]; rfl)
    · split at h
      · next hr =>
        cases h
        exact .refused hp hr
      · next hr =>
        cases h
        exact .opened hp hr
  · next hp =>
    cases h
    exact .passed hp
  · next hp =>
    cases h
    exact .called hp
  · next hp => exact resumeCallback_cases hp h
  · next hp => exact listen_cases hp h
  · next hp =>
    split at h
    · next hd =>
      cases h
      exact .retried hp hd
    · cases h
  · cases h

/-! ## Moves -/

/-- What a move comes to. -/
inductive MoveCase (setup : Setup) (w : World) : World → Prop where
  | edits {w' : World} (h : Edits setup w w') : MoveCase setup w w'
  /-- A command of a task is let through its gate. -/
  | cleared {id : Nat} {t : Task} (ht : w.tasks[id]? = some t) :
      MoveCase setup w (w.moveTask id t.position.clear)
  | stopped {id : Nat} {t : Task} (ht : w.tasks[id]? = some t) (he : t.isEnded = false)
      (hc : t.cancelled = true) : MoveCase setup w (w.stopTask id t)
  | went {id : Nat} {t : Task} {w' : World} (ht : w.tasks[id]? = some t) (he : t.isEnded = false)
      (hc : t.cancelled = false) (h : TaskStep setup w id t w') : MoveCase setup w w'

theorem modify_congr {α : Type} {l : List α} {i : Nat} {a : α} {f g : α → α} (h : l[i]? = some a)
    (hfg : f a = g a) : l.modify i f = l.modify i g := by
  apply List.ext_getElem?
  intro j
  rw [List.getElem?_modify, List.getElem?_modify]
  by_cases hij : i = j
  · subst hij
    simp [h, hfg]
  · simp [hij]

theorem updateTask_congr {w : World} {id : Nat} {t : Task} {f g : Task → Task}
    (ht : w.tasks[id]? = some t) (h : f t = g t) : w.updateTask id f = w.updateTask id g := by
  rw [updateTask, updateTask, modify_congr ht h]

theorem move_cases {w w' : World} {m : Move} (h : w.move setup m = some w') :
    MoveCase setup w w' := by
  cases m with
  | step a =>
    cases a with
    | call id => exact .edits (stepCall_edits h)
    | task id =>
      obtain ⟨t, ht, h⟩ := Option.bind_eq_some_iff.1 h
      unfold stepTask at h
      split at h
      · cases h
      · next he =>
        have he : t.isEnded = false := by simpa using he
        split at h
        · next hc =>
          cases h
          exact .stopped ht he hc
        · next hc => exact .went ht he (by simpa using hc) (advanceTask_cases h)
  | ask id a =>
    simp only [move] at h
    split at h
    · cases h
    · cases h
      exact .edits (ask_edits w id a)
  | drop id =>
    cases h
    exact .edits (dropCall_edits w id)
  | clear a =>
    cases h
    cases a with
    | call id => exact .edits (.aside (.quiet rfl rfl rfl rfl rfl rfl rfl))
    | task id =>
      cases ht : w.tasks[id]? with
      | none =>
        have hmod : w.tasks.modify id (fun t => { t with position := t.position.clear }) = w.tasks :=
          List.modify_eq_self (by simpa using ht)
        exact .edits (.aside (.quiet rfl rfl rfl rfl hmod rfl rfl))
      | some t =>
        have hmod : w.clear (.task id) = w.moveTask id t.position.clear := updateTask_congr ht rfl
        rw [hmod]
        exact .cleared ht
  | free m =>
    cases h
    exact .edits (.aside (.quiet rfl rfl rfl rfl rfl rfl rfl))
  | elapse n =>
    cases h
    exact .edits (.aside (.quiet rfl rfl rfl rfl rfl rfl rfl))

end World

end Muster
