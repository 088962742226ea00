import Mathlib.Data.Finset.Card
import Muster.Remote.Wire
import Muster.Proofs.Budgets

/-!
# Counting protocol faults

A protocol fault ends a task for good, whatever raised it (`Origin`): an item of its stream, a
message that is no event, or a listener that was called. The record tells of each
(`Setup.breach?`), and so which tasks ended on one (`World.casualties`). The counter knows only of
messages and of listeners that were called with one (`World.Tally`).
-/
namespace Muster

/-- What raises a protocol fault in a task. -/
inductive Origin where
  /-- An item of the stream that is no message. -/
  | item
  /-- A message that is no event. -/
  | message
  /-- A listener that was called with a message. -/
  | event
  /-- A listener that was called to synchronise. -/
  | sync
deriving DecidableEq, Repr

/-- Whether a client counts the protocol faults of this origin. -/
def Origin.isCounted : Origin → Bool
  | .message | .event => true
  | .item | .sync => false

def Hook.origin : Hook → Origin
  | .sync => .sync
  | .event _ => .event

namespace Setup

variable (setup : Setup)

/-- The task whose attempt ends with a mark on a protocol fault, and what raised it. -/
def breach? : Mark → Option (Nat × Origin)
  | .returned id _ h (some f) => if f.isFatal then some (id, h.origin) else none
  | .read id (.message p) =>
    match setup.screen p with
    | .error f => if f.isFatal then some (id, .item) else none
    | .ok m =>
      match Event.decode m with
      | .error _ => some (id, .message)
      | .ok _ => none
  | _ => none

/-- All protocol faults on record. -/
def breaches (trace : List Mark) : List (Nat × Origin) := trace.filterMap setup.breach?

/-- A mark of a protocol fault that is counted. -/
def isCounted (m : Mark) : Bool :=
  match setup.breach? m with
  | some (_, o) => o.isCounted
  | none => false

end Setup

/-- A client of a store that sends bytes, one in each character of an item, and reads them as
text. -/
def Setup.ofBytes (identity channel : String) : Setup where
  config := { identity }
  source _ := none
  screen item := payloadText channel (item.toList.map fun c => UInt8.ofNat c.toNat)

/-- A client whose listeners reject the channel when they are synchronised. -/
def Setup.rejecting (identity : String) : Setup where
  config := { identity }
  source _ := none
  behaviour _ hook _ := { fault := if hook = .sync then some (.protocol "rejected") else none }

/-- The tasks that ended on a protocol fault of such an origin. -/
def World.casualties (setup : Setup) (w : World) (p : Origin → Bool) : Finset Nat :=
  (((setup.breaches w.trace).filter fun b => p b.2).map Prod.fst).toFinset

section
variable {setup : Setup} {id : Nat} {m : Mark} {o : Origin} {past trace : List Mark}

/-- No protocol fault is without an origin. -/
theorem Setup.exists_breach? :
    (∃ o, setup.breach? m = some (id, o)) ↔ setup.ending? m = some (id, .fatal) := by
  cases m with
  | stored who call f => cases who <;> cases call <;> cases f <;> simp [breach?, ending?]
  | returned i l h f =>
    cases f with
    | none => simp [breach?, ending?]
    | some f =>
      have hbroken : f.isFatal = true → h.isBroken (some f) = true := by
        cases h <;> simp [Hook.isBroken]
      cases hf : f.isFatal <;> simp [breach?, ending?, Fault.ending, hf]
      exact fun _ => hbroken hf
  | read i r =>
    cases r with
    | message p =>
      cases hs : setup.screen p with
      | error f => cases hf : f.isFatal <;> simp [breach?, ending?, hs, Fault.ending, hf]
      | ok m => cases hd : Event.decode m <;> simp [breach?, ending?, hs, hd]
    | _ => simp [breach?, ending?]
  | _ => simp [breach?, ending?]

theorem Setup.mem_breaches :
    (id, o) ∈ setup.breaches trace ↔ ∃ m ∈ trace, setup.breach? m = some (id, o) :=
  List.mem_filterMap

theorem Setup.countP_isCounted (trace : List Mark) :
    trace.countP setup.isCounted =
      ((setup.breaches trace).filter fun b => b.2.isCounted).length := by
  rw [← List.countP_eq_length_filter, breaches, List.countP_filterMap]
  refine List.countP_congr fun m _ => ?_
  unfold isCounted
  cases setup.breach? m <;> rfl

/-- Marks that do not weigh tell of no protocol fault. -/
theorem Setup.not_isCounted_of_not_weighs (h : setup.weighs m = false) :
    setup.isCounted m = false := by
  cases hb : setup.breach? m with
  | none => simp [isCounted, hb]
  | some b =>
    have hending := exists_breach?.1 ⟨b.2, hb⟩
    rw [(of_not_weighs h).1] at hending
    cases hending

theorem World.mem_casualties {w : World} {p : Origin → Bool} :
    id ∈ w.casualties setup p ↔
      ∃ m ∈ w.trace, ∃ o, setup.breach? m = some (id, o) ∧ p o = true := by
  simp only [casualties, List.mem_toFinset, List.mem_map, List.mem_filter, Prod.exists]
  constructor
  · rintro ⟨i, o, ⟨hmem, hp⟩, rfl⟩
    obtain ⟨m, hm, hb⟩ := Setup.mem_breaches.1 hmem
    exact ⟨m, hm, o, hb, hp⟩
  · rintro ⟨m, hm, o, hb, hp⟩
    exact ⟨id, o, ⟨Setup.mem_breaches.2 ⟨m, hm, hb⟩, hp⟩, rfl⟩

/-! ## One protocol fault a task -/

/-- After a protocol fault its task fails and ends at once, and makes no further mark. -/
theorem Setup.Heeded.breached (h : setup.Heeded trace) (hdue : setup.due? trace = none)
    (hs : m :: past <:+ trace) (hb : setup.breach? m = some (id, o)) :
    ∃ later, trace = later ++ .ended id :: .published id .failed :: m :: past ∧
      ∀ x ∈ later, x.owner? ≠ some id := by
  have hverdict : setup.due? (m :: past) = some (.published id .failed) := by
    rw [due?_of_ending? (exists_breach?.1 ⟨o, hb⟩)]
    simp [verdict]
  obtain ⟨before, hbefore⟩ := h.followed hs hverdict hdue
  have hwrote : .published id .failed :: m :: past <:+ trace := ⟨before, hbefore.symm⟩
  obtain ⟨later, hlater⟩ := h.followed hwrote rfl hdue
  exact ⟨later, hlater, (hlater ▸ h).silent⟩

/-- So no task meets two. -/
theorem Setup.Heeded.breaches_nodup (h : setup.Heeded trace) (hdue : setup.due? trace = none)
    (hs : past <:+ trace) : ((setup.breaches past).map Prod.fst).Nodup := by
  induction past with
  | nil => simp [breaches]
  | cons m past ih =>
    have ih := ih ((List.suffix_cons m past).trans hs)
    cases hb : setup.breach? m with
    | none => simpa [breaches, hb] using ih
    | some b =>
      obtain ⟨id, o⟩ := b
      have hfresh : id ∉ (setup.breaches past).map Prod.fst := by
        intro hmem
        obtain ⟨⟨i, o'⟩, hmet, rfl⟩ := List.mem_map.1 hmem
        obtain ⟨m', hm', hb'⟩ := mem_breaches.1 hmet
        obtain ⟨middle, before, rfl⟩ := List.append_of_mem hm'
        -- The task had ended when it met the later fault.
        have hearlier : m' :: before <:+ trace :=
          (List.suffix_append (m :: middle) (m' :: before)).trans hs
        obtain ⟨later, hlater, hsilent⟩ := h.breached hdue hearlier hb'
        obtain ⟨after, rfl⟩ := hs
        have hsame : after ++ m :: middle = later ++ [.ended i, .published i .failed] :=
          (List.append_left_inj (m' :: before)).1 (by simpa using hlater)
        have hending := exists_breach?.1 ⟨o, hb⟩
        have hm : m ∈ later ++ [.ended i, .published i .failed] := hsame ▸ by simp
        rcases List.mem_append.1 hm with hm | hm
        · exact hsilent m hm (owner?_of_ending? hending)
        · simp only [List.mem_cons, List.not_mem_nil, or_false] at hm
          rcases hm with rfl | rfl <;> cases hending
      simpa [breaches, hb] using ⟨by simpa [breaches] using hfresh, ih⟩

end

namespace World

variable {setup : Setup} {w v w' : World} {id : Nat} {t : Task} {s : Nat} {pass : Pass}
  {l : Listener} {rest : List Listener} {m : Mark} {f : Fault}

theorem card_casualties (h : setup.Heeded w.trace) (hdue : setup.due? w.trace = none)
    (p : Origin → Bool) : (w.casualties setup p).card =
      ((setup.breaches w.trace).filter fun b => p b.2).length := by
  have hnodup := h.breaches_nodup hdue List.suffix_rfl
  have hsub : (((setup.breaches w.trace).filter fun b => p b.2).map Prod.fst).Nodup :=
    hnodup.sublist (List.filter_sublist.map _)
  rw [casualties, List.toFinset_card_of_nodup hsub, List.length_map]

/-! ## The counter -/

/-- The counter is the number of the protocol faults on record that are counted. -/
def Tally (setup : Setup) (w : World) : Prop :=
  w.counters.protocolFaults = w.trace.countP setup.isCounted

namespace Tally

theorem same (h : Tally setup w) (hm : v.trace = w.trace)
    (hc : v.counters.protocolFaults = w.counters.protocolFaults) : Tally setup v := by
  rw [Tally, hm, hc]
  exact h

theorem note (h : Tally setup w) (hm : setup.isCounted m = false) : Tally setup (w.note m) := by
  have hcount : (m :: w.trace).countP setup.isCounted = w.trace.countP setup.isCounted :=
    List.countP_cons_of_neg (by simp [hm])
  exact Eq.trans h hcount.symm

/-- A fault is recorded and counted. -/
theorem counted (h : Tally setup w) (hm : setup.isCounted m = true) :
    Tally setup ((w.note m).count .protocolFaults) := by
  have hcount : (m :: w.trace).countP setup.isCounted = w.trace.countP setup.isCounted + 1 :=
    List.countP_cons_of_pos hm
  exact Eq.trans (congrArg (· + 1) h) hcount.symm

theorem level (h : Tally setup w) (hl : Level setup id w v)
    (hc : v.counters.events = w.counters.events) : Tally setup v := by
  obtain ⟨ms, hm, hms⟩ := hl.trace
  have hnone : ms.countP setup.isCounted = 0 := by
    simp only [List.countP_eq_zero, Bool.not_eq_true]
    exact fun m hmem => Setup.not_isCounted_of_not_weighs (hms m hmem).1
  simp only [Counters.events, Prod.mk.injEq] at hc
  rw [Tally, hm, List.countP_append, hnone, Nat.zero_add, hc.1.2.2]
  exact h

theorem perform {α : Type} (h : Tally setup w) (who : Actor) (call : StoreCall)
    (command : Memory → Except Fault (α × Memory)) :
    Tally setup (w.perform who call command).2 := by
  rcases perform_cases w who call command with ⟨f, faults, hp⟩ | ⟨a, store, faults, -, hp⟩ <;> rw [hp]
  · exact (h.same rfl rfl : Tally setup { w with faults }).note rfl
  · exact (h.same rfl rfl : Tally setup { w with faults, store }).note rfl

theorem publish (h : Tally setup w) (id : Nat) (t : Task) (s : Status) :
    Tally setup (w.publish id t s) := by
  rcases Ruled.publish_cases w id t s with ⟨slot, -, -, heq⟩ | ⟨-, heq⟩ <;> rw [heq]
  · exact (h.note (m := .published id s) rfl).same rfl rfl
  · exact h

/-! ### The end of an attempt -/

theorem finishTask (h : Tally setup w) (id : Nat) (t : Task) (s : Status) :
    Tally setup (w.finishTask id t s) :=
  ((h.publish id t s).same rfl rfl : Tally setup ((w.publish id t s).moveTask id .ended)).note rfl

theorem closeStream (h : Tally setup w) (t : Task) : Tally setup (w.closeStream t) := by
  unfold World.closeStream
  split
  · exact h.same rfl rfl
  · exact h

theorem failTask (h : Tally setup w) (id : Nat) (t : Task) : Tally setup (w.failTask id t) :=
  (h.same rfl rfl : Tally setup (w.count .subscriptionFailures)).finishTask id t .failed

theorem dropAttempt (h : Tally setup w) (id : Nat) (t : Task) :
    Tally setup (w.dropAttempt setup id t) := by
  rcases dropAttempt_cases setup w id t with ⟨-, heq⟩ | ⟨-, heq⟩ <;> rw [heq]
  · exact (h.same rfl rfl : Tally setup (w.updateTask id _)).failTask id t
  · have waits : ∀ g, Tally setup (World.updateTask { w with draws := w.draws + 1 } id g) :=
      fun _ => h.same rfl rfl
    exact (waits _).publish id t _

theorem endAttempt (h : Tally setup w) (id : Nat) (t : Task) (f : Fault) :
    Tally setup (w.endAttempt setup id t f) := by
  unfold World.endAttempt
  dsimp only
  split
  · exact (h.closeStream t).failTask id t
  · exact (h.closeStream t).dropAttempt id t

/-! ### Listeners and messages -/

/-- Of the faults with which a listener answers, those are counted that end a delivery. -/
theorem afterCallback (h : Tally setup w) (id : Nat) (t : Task) (s : Nat) (pass : Pass)
    (l : Listener) (fault : Option Fault) (rest : List Listener) :
    Tally setup (w.afterCallback setup id t s pass l fault rest) := by
  unfold World.afterCallback
  dsimp only
  split
  · exact (h.note rfl).same rfl rfl
  · next f message =>
    split
    · next hf =>
      exact (h.counted (by simp [Setup.isCounted, Setup.breach?, hf, Pass.hook, Hook.origin,
        Origin.isCounted])).endAttempt id t f
    · next hf =>
      exact (h.note (m := .returned id l (.event message) (some f))
        (by simp [Setup.isCounted, Setup.breach?, hf])).same rfl rfl
  · next f hpass =>
    have hhook : pass.hook = .sync := by
      cases pass with
      | delivery message => exact (hpass message rfl).elim
      | _ => rfl
    refine Tally.endAttempt (h.note ?_) id t f
    cases hf : f.isFatal <;>
      simp [Setup.isCounted, Setup.breach?, hf, hhook, Hook.origin, Origin.isCounted]

theorem applyEvent (h : Tally setup w) (c message : String) :
    Tally setup (w.applyEvent c message).2 := by
  unfold World.applyEvent
  split
  · exact h
  · exact h.same rfl rfl

theorem call (h : Tally setup w) (id : Nat) (t : Task) (s : Nat) (pass : Pass) (l : Listener)
    (rest : List Listener) : Tally setup (w.call setup id t s pass l rest) := by
  have hcalled : Tally setup (w.note (.called id l pass.hook)) := h.note rfl
  unfold World.call
  dsimp only
  split
  · exact hcalled.same rfl rfl
  · exact (hcalled.applyEvent _ _).afterCallback id t s pass _ _ rest
  · exact hcalled.same rfl rfl

theorem takePending (h : Tally setup w) (id : Nat) (c : String) :
    Tally setup (w.takePending id c).2 :=
  (h.note (m := .took id c (w.listeners.pending c)) rfl).same rfl rfl

/-- Of the payloads that are read, those are counted that are messages but no events. -/
theorem receive (h : Tally setup w) (id : Nat) (t : Task) (s : Nat) (payload : String) :
    Tally setup ((w.note (.read id (.message payload))).receive setup id t s payload) := by
  unfold World.receive
  split
  · next f hs =>
    refine Tally.endAttempt (h.note ?_) id t f
    cases hf : f.isFatal <;>
      simp [Setup.isCounted, Setup.breach?, hs, hf, Origin.isCounted]
  · next m hs =>
    dsimp only
    split
    · next f hd =>
      have hcounted : setup.isCounted (.read id (.message payload)) = true := by
        simp [Setup.isCounted, Setup.breach?, hs, hd, Origin.isCounted]
      have hboth : Tally setup (((w.note (.read id (.message payload))).count
          .eventsReceived).count .protocolFaults) := (h.counted hcounted).same rfl rfl
      exact hboth.endAttempt id t f
    · next e hd =>
      have hread : Tally setup (w.note (.read id (.message payload))) :=
        h.note (by simp [Setup.isCounted, Setup.breach?, hs, hd])
      have htook := (hread.same rfl rfl :
        Tally setup ((w.note (.read id (.message payload))).count .eventsReceived)).takePending
          id t.cluster
      exact (htook.note (m := .dispatched id m _) rfl).same rfl rfl

theorem settleAction (h : Tally setup w) (id s : Nat) (pass : Pass) (l : Listener)
    (rest : List Listener) (name label : String) (more : List (String × Action))
    (fault : Option Fault) (q : Progress) :
    Tally setup (w.settleAction id s pass l rest name label more fault q) := by
  cases q with
  | finished a => exact (h.note (m := .did name label a) rfl).same rfl rfl
  | paused stage => exact h.same rfl rfl

theorem finishPass (h : Tally setup w) (id : Nat) (t : Task) (s : Nat) (pass : Pass) :
    Tally setup (w.finishPass id t s pass) := by
  cases pass with
  | full => exact (h.publish id t .active).same rfl rfl
  | _ => exact h.same rfl rfl

/-! ### Runs -/

/-- One step of a task. -/
theorem taskStep (h : Tally setup w) (hsup : Supervised w) (hstep : TaskStep setup w id t w') :
    Tally setup w' := by
  have performed : ∀ {α : Type} {who : Actor} {call : StoreCall}
      {command : Memory → Except Fault (α × Memory)} {r : Except Fault α} {v : World},
      w.perform who call command = (r, v) → Tally setup v := by
    intro α who call command r v hp
    simpa [hp] using h.perform who call command
  cases hstep with
  | parked => exact h.same rfl rfl
  | refused hp hopen => exact (performed hopen).dropAttempt id t
  | @opened g s v hp hopen =>
    exact (((performed hopen).takePending id t.cluster).note (m := .opened id s _) rfl).same rfl rfl
  | passed => exact h.finishPass id t _ _
  | called => exact h.call id t _ _ _ _
  | unread hp hread => exact (performed hread).afterCallback id t _ _ _ _ _
  | read hp hread => exact (performed hread).same rfl rfl
  | replaced =>
    exact (h.same rfl rfl : Tally setup (w.updateCache t.cluster _)).afterCallback id t _ _ _ _ _
  | returned => exact h.afterCallback id t _ _ _ _ _
  | @acted s pass l name label a more fault rest v p hp hbegin =>
    have hdoing : Tally setup (w.note (.doing name label)) := h.note rfl
    have hdeed := @begin_deed setup (w.note (.doing name label)) (.task id) a
    have hedits := @begin_edits setup (w.note (.doing name label)) (.task id) a
    rw [hbegin] at hdeed hedits
    have hl : Level setup id _ v := .edits hedits
    have hbegun := hdoing.level hl (hdeed.events (hsup.rests (.note w _)))
    exact hbegun.settleAction id _ _ _ _ _ _ _ _ _
  | resumed hp hresume =>
    have hdeed : Deed setup True (.task id) w _ _ _ := resume_deed hresume
    have hl : Level setup id w _ := .edits (resume_edits hresume)
    exact (h.level hl (hdeed.events hsup)).settleAction id _ _ _ _ _ _ _ _ _
  | woken hp hn hv =>
    subst hv
    exact ((h.same rfl rfl : Tally setup (w.updateTask id _)).takePending id t.cluster).same rfl rfl
  | @received s payload store =>
    exact (h.same rfl rfl : Tally setup { w with store }).receive id t s payload
  | @closed s r f store hp hn hnext hr =>
    have hread : Tally setup ({ w with store }.note (.read id r)) := by
      refine (h.same rfl rfl : Tally setup { w with store }).note ?_
      rcases hr with ⟨rfl, -⟩ | ⟨n, rfl, -⟩ <;> rfl
    exact hread.endAttempt id t f
  | retried => exact h.same rfl rfl

theorem stopTask (h : Tally setup w) (id : Nat) (t : Task) : Tally setup (w.stopTask id t) := by
  unfold World.stopTask
  dsimp only
  split
  · next stage _ _ _ _ =>
    have habandoned : Tally setup (w.abandon (.task id) stage) := by
      rcases abandon_cases w (.task id) stage with heq | ⟨c, heq⟩ <;> rw [heq]
      · exact h
      · exact h.same rfl rfl
    exact (habandoned.closeStream t).finishTask id t .stopped
  · exact (h.closeStream t).finishTask id t .stopped

theorem move {m : Move} (h : Tally setup w) (hsup : Supervised w)
    (hm : w.move setup m = some w') : Tally setup w' := by
  by_cases hstep : ∃ id, m = .step (.task id)
  · obtain ⟨id, rfl⟩ := hstep
    obtain ⟨t, ht, hm⟩ := Option.bind_eq_some_iff.1 hm
    unfold World.stepTask at hm
    split at hm
    · cases hm
    · split at hm
      · cases hm
        exact h.stopTask id t
      · exact h.taskStep hsup (advanceTask_cases hm)
  · by_cases hclear : ∃ id, m = .clear (.task id)
    · obtain ⟨id, rfl⟩ := hclear
      cases hm
      exact h.same rfl rfl
    · obtain ⟨hl, hevents⟩ : Level setup 0 w w' ∧ _ :=
        move_level hsup hm (fun id hid => hstep ⟨id, hid⟩) fun id hid => hclear ⟨id, hid⟩
      exact h.level hl hevents

theorem of_reachable {setups : Nat → Setup} {f : Fleet} {i : Nat}
    (hf : Fleet.Reachable setups f) (hw : f.world? i = some w) : Tally (setups i) w := by
  obtain ⟨store, n, -, hr⟩ := hf
  have hboth : Supervised w ∧ Tally (setups i) w :=
    hr.keeps_own (P := fun w => Supervised w ∧ Tally (setups i) w)
      (fun _ _ h => ⟨h.1.rests (.quiet rfl rfl rfl rfl rfl), h.2.same rfl rfl⟩)
      (fun _ _ _ h hm => ⟨h.1.move hm, h.2.move h.1 hm⟩)
      (fun v hv => Fleet.world?_start hv ▸ ⟨.start store, rfl⟩) hw
  exact hboth.2

end Tally

end World

namespace Fleet

variable {setups : Nat → Setup} {f : Fleet} {i : Nat} {w : World}

/-- Protocol faults are counted in part. The tasks that ended on one are those that failed with it
and ended at once, each on one fault; the counter is the number of those whose fault was raised by
a message or by a listener that was called with one. Those whose fault was raised by an item of the
stream, or by a listener that was synchronised, are missing from it. -/
theorem protocol_faults_counted (hf : Reachable setups f) (hw : f.world? i = some w) :
    (∀ p id, id ∈ w.casualties (setups i) p ↔ ∃ t later m past o, w.tasks[id]? = some t ∧
      t.isEnded = true ∧ w.trace = later ++ .ended id :: .published id .failed :: m :: past ∧
      (setups i).breach? m = some (id, o) ∧ p o = true) ∧
    (∀ m id, m ∈ w.trace → (setups i).ending? m = some (id, .fatal) →
      id ∈ w.casualties (setups i) fun _ => true) ∧
    w.counters.protocolFaults = (w.casualties (setups i) Origin.isCounted).card ∧
    (w.casualties (setups i) fun _ => true).card =
      w.counters.protocolFaults + (w.casualties (setups i) fun o => !o.isCounted).card := by
  have hledger := ledger_of_reachable hf hw
  have card := World.card_casualties hledger.heeded hledger.settled
  have hcounter : w.counters.protocolFaults = (w.casualties (setups i) Origin.isCounted).card := by
    rw [card, ← Setup.countP_isCounted]
    exact World.Tally.of_reachable hf hw
  refine ⟨fun p id => ?_, fun m id hm hend => ?_, hcounter, ?_⟩
  · rw [World.mem_casualties]
    constructor
    · rintro ⟨m, hm, o, hb, hp⟩
      obtain ⟨later, past, hsplit⟩ := List.append_of_mem hm
      have hs : m :: past <:+ w.trace := ⟨later, hsplit.symm⟩
      obtain ⟨after, hafter, -⟩ := hledger.heeded.breached hledger.settled hs hb
      have howner := Setup.owner?_of_ending? (Setup.exists_breach?.1 ⟨o, hb⟩)
      cases ht : w.tasks[id]? with
      | none =>
        exact absurd howner (((Streamed.of_reachable hf).recorded hw).unmarked id ht m hm)
      | some t =>
        have hended : t.position = .ended := (hledger.accounts ht).gone (by simp [hafter])
        exact ⟨t, after, m, past, o, rfl, Task.isEnded_iff.2 hended, hafter, hb, hp⟩
    · rintro ⟨t, later, m, past, o, -, -, htrace, hb, hp⟩
      exact ⟨m, by simp [htrace], o, hb, hp⟩
  · obtain ⟨o, hb⟩ := Setup.exists_breach?.2 hend
    exact World.mem_casualties.2 ⟨m, hm, o, hb, rfl⟩
  · rw [hcounter, card, card, card]
    simp only [← List.countP_eq_length_filter, List.countP_true]
    simpa using List.length_eq_countP_add_countP fun b : Nat × Origin => b.2.isCounted

/-- A message that is no event ends its task, and is counted. -/
theorem protocol_faults_counted_message : ∃ f w, Reachable (fun _ => .plain "me@here") f ∧
    f.world? 0 = some w ∧ w.casualties (.plain "me@here") Origin.isCounted = {0} ∧
    w.counters.protocolFaults = 1 := by
  obtain ⟨f, w, hf, hw, hp⟩ := exists_of_run (fun _ => .plain "me@here") .usual 1 0
    ([(0, .ask 0 (.attach "c" "l"))] ++ List.replicate 4 (0, .step (.task 0)) ++
      [(0, .ask 0 (.send "registry.redis.c" ["?"])), (0, .step (.task 0))])
    (fun w => w.casualties (.plain "me@here") Origin.isCounted == {0}) rfl (by decide +kernel)
  have hlost := eq_of_beq hp
  obtain ⟨-, -, hcounter, -⟩ := protocol_faults_counted hf hw
  exact ⟨f, w, hf, hw, hlost, by rw [hcounter, hlost]; rfl⟩

/-- Two runs in which the only task ends on a protocol fault and none is counted: its stream brings
a byte that begins no character, and its listener rejects the channel when it is synchronised. -/
theorem protocol_fault_uncounted :
    (∃ f w, Reachable (fun _ => .ofBytes "me@here" "registry.redis.c") f ∧ f.world? 0 = some w ∧
      w.casualties (.ofBytes "me@here" "registry.redis.c") (fun _ => true) = {0} ∧
      w.counters.protocolFaults = 0) ∧
    (∃ f w, Reachable (fun _ => .rejecting "me@here") f ∧ f.world? 0 = some w ∧
      w.casualties (.rejecting "me@here") (fun _ => true) = {0} ∧
      w.counters.protocolFaults = 0) := by
  refine ⟨?_, ?_⟩
  · obtain ⟨f, w, hf, hw, hp⟩ := exists_of_run
      (fun _ => .ofBytes "me@here" "registry.redis.c") .usual 1 0
      ([(0, .ask 0 (.attach "c" "l"))] ++ List.replicate 4 (0, .step (.task 0)) ++
        [(0, .ask 0 (.send "registry.redis.c" ["\xff"])), (0, .step (.task 0))])
      (fun w => w.casualties (.ofBytes "me@here" "registry.redis.c") (fun _ => true) == {0} &&
        w.counters.protocolFaults == 0) rfl (by decide +kernel)
    simp only [Bool.and_eq_true, beq_iff_eq] at hp
    exact ⟨f, w, hf, hw, hp⟩
  · obtain ⟨f, w, hf, hw, hp⟩ := exists_of_run (fun _ => .rejecting "me@here") .usual 1 0
      ([(0, .ask 0 (.attach "c" "l"))] ++ List.replicate 3 (0, .step (.task 0)))
      (fun w => w.casualties (.rejecting "me@here") (fun _ => true) == {0} &&
        w.counters.protocolFaults == 0) rfl (by decide +kernel)
    simp only [Bool.and_eq_true, beq_iff_eq] at hp
    exact ⟨f, w, hf, hw, hp⟩

end Fleet

end Muster
