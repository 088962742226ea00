import Muster.Proofs.Endings
import Muster.Proofs.Statuses

/-!
# Restarts

What one step of a task does about its attempts. Most leave the attempt under way, and what all of
them have in common is that no task changes from one kind of position to another (`World.Level`).
The rest are few (`World.Fate`): a stream is opened, the task becomes active, or its attempt ends
and it fails or goes to wait, or its wait is over.
-/
namespace Muster

namespace Position

def isOpening : Position → Bool
  | .opening _ => true
  | _ => false

def isWaiting : Position → Bool
  | .waiting _ => true
  | _ => false

@[simp] theorem isOpening_opening (g : Gate) : (opening g).isOpening = true := rfl

@[simp] theorem isWaiting_opening (g : Gate) : (opening g).isWaiting = false := rfl

@[simp] theorem isOpening_waiting (due : Nat) : (waiting due).isOpening = false := rfl

@[simp] theorem isWaiting_waiting (due : Nat) : (waiting due).isWaiting = true := rfl

@[simp] theorem isOpening_ended : ended.isOpening = false := rfl

@[simp] theorem isWaiting_ended : ended.isWaiting = false := rfl

/-- Two positions are of a kind, as far as attempts go. -/
structure Resembles (p q : Position) : Prop where
  opening : p.isOpening = q.isOpening
  waiting : p.isWaiting = q.isWaiting
  ended : p = .ended ↔ q = .ended

theorem resembles_clear (p : Position) : p.clear.Resembles p := by
  refine ⟨?_, ?_, Position.clear_eq_ended⟩ <;>
    (unfold Position.clear; split <;> rfl)

theorem Resembles.symm {p q : Position} (h : p.Resembles q) : q.Resembles p :=
  ⟨h.opening.symm, h.waiting.symm, h.ended.symm⟩

theorem Resembles.trans {p q r : Position} (h : p.Resembles q) (h' : q.Resembles r) :
    p.Resembles r :=
  ⟨h.opening.trans h'.opening, h.waiting.trans h'.waiting, h.ended.trans h'.ended⟩

theorem resembles_of_clear {p q : Position} (h : p.clear = q.clear) : p.Resembles q :=
  (resembles_clear p).symm.trans (h ▸ resembles_clear q)

/-- With an open stream an attempt is under way. -/
theorem of_stream? {p : Position} (h : p.stream?.isSome = true) :
    p.isOpening = false ∧ p.isWaiting = false ∧ p ≠ .ended := by
  cases p with
  | passing | calling | listening => exact ⟨rfl, rfl, by simp⟩
  | _ => cases h

theorem resembles_of_stream? {p q : Position} (hp : p.stream?.isSome = true)
    (hq : q.stream?.isSome = true) : p.Resembles q := by
  obtain ⟨ho, hw, he⟩ := of_stream? hp
  obtain ⟨ho', hw', he'⟩ := of_stream? hq
  exact ⟨ho.trans ho'.symm, hw.trans hw'.symm, by simp [he, he']⟩

end Position

namespace Task

def isOpening (t : Task) : Bool := t.position.isOpening

def isWaiting (t : Task) : Bool := t.position.isWaiting

/-- Only a flag of the task was raised. -/
structure Persists (t t' : Task) : Prop where
  failures : t'.failures = t.failures
  backoff : t'.backoff = t.backoff
  position : t'.position = t.position
  cancelled : t'.cancelled = false → t.cancelled = false

namespace Persists

variable {t t' u : Task}

theorem refl (t : Task) : t.Persists t := ⟨rfl, rfl, rfl, id⟩

theorem trans (h : t.Persists t') (h' : t'.Persists u) : t.Persists u :=
  ⟨h'.failures.trans h.failures, h'.backoff.trans h.backoff, h'.position.trans h.position,
    fun hc => h.cancelled (h'.cancelled hc)⟩

theorem counts (h : t.Persists t') : t'.isOpening = t.isOpening ∧ t'.isWaiting = t.isWaiting := by
  simp [isOpening, isWaiting, h.position]

end Persists

end Task

/-- One element changes. -/
theorem countP_modify {α : Type} (p : α → Bool) (f : α → α) {l : List α} {i : Nat} {a : α}
    (h : l[i]? = some a) :
    (l.modify i f).countP p + (p a).toNat = l.countP p + (p (f a)).toNat := by
  induction l generalizing i with
  | nil => simp at h
  | cons b l ih =>
    cases i with
    | zero =>
      obtain rfl : b = a := by simpa using h
      rw [List.modify_zero_cons, List.countP_cons, List.countP_cons]
      cases p b <;> cases p (f b) <;> simp
    | succ i =>
      have hrest := ih (by simpa using h)
      rw [List.modify_succ_cons, List.countP_cons, List.countP_cons]
      omega

namespace World

variable {setup : Setup} {w v w' : World} {id : Nat} {t : Task} {s : Nat} {pass : Pass}
  {l : Listener} {rest : List Listener} {m : Mark} {ms : List Mark} {f : Fault} {e : Ending}
  {p : Position}

/-! ## Steps within an attempt -/

/-- A task may have made marks that do not weigh; tasks are started, and flags of others raised, but
none moves. -/
structure Level (setup : Setup) (id : Nat) (w v : World) : Prop where
  trace : ∃ ms, v.trace = ms ++ w.trace ∧ setup.Weightless id ms
  old : ∀ (j : Nat) (t : Task), w.tasks[j]? = some t → ∃ t', v.tasks[j]? = some t' ∧ t.Persists t'
  fresh : ∀ (j : Nat) (t' : Task), w.tasks[j]? = none → v.tasks[j]? = some t' →
    t'.failures = 0 ∧ t'.backoff = .ofPolicy setup.config.restart ∧ t'.position = .opening .arriving
  opening : v.tasks.countP Task.isOpening + w.tasks.length =
    w.tasks.countP Task.isOpening + v.tasks.length
  waiting : v.tasks.countP Task.isWaiting = w.tasks.countP Task.isWaiting

namespace Level

theorem same (ht : v.tasks = w.tasks) (htrace : v.trace = ms ++ w.trace)
    (hms : setup.Weightless id ms) : Level setup id w v := by
  refine ⟨⟨ms, htrace, hms⟩, fun j t h => ⟨t, by rw [ht]; exact h, .refl t⟩, fun j t' h h' => ?_,
    by rw [ht], by rw [ht]⟩
  rw [ht, h] at h'
  cases h'

theorem quiet (ht : v.tasks = w.tasks) (hm : v.trace = w.trace) : Level setup id w v :=
  same ht (hm.trans (List.nil_append _).symm) .nil

theorem trans {a b c : World} (h : Level setup id a b) (h' : Level setup id b c) :
    Level setup id a c := by
  obtain ⟨ms, hm, hms⟩ := h.trace
  obtain ⟨ms', hm', hms'⟩ := h'.trace
  refine ⟨⟨ms' ++ ms, by simp [hm', hm], fun m hmem => ?_⟩, fun j t ht => ?_,
    fun j t' hnone ht' => ?_, ?_, h'.waiting.trans h.waiting⟩
  · exact (List.mem_append.1 hmem).elim (hms' m) (hms m)
  · obtain ⟨u, hu, hp⟩ := h.old j t ht
    obtain ⟨u', hu', hp'⟩ := h'.old j u hu
    exact ⟨u', hu', hp.trans hp'⟩
  · cases hb : b.tasks[j]? with
    | none => exact h'.fresh j t' hb ht'
    | some u =>
      obtain ⟨u', hu', hp⟩ := h'.old j u hb
      cases hu'.symm.trans ht'
      obtain ⟨hf, hback, hpos⟩ := h.fresh j u hnone hb
      exact ⟨hp.failures.trans hf, hp.backoff.trans hback, hp.position.trans hpos⟩
  · have := h.opening
    have := h'.opening
    omega

theorem note (w : World) (hm : setup.weighs m = false) (ho : m.owner? = none) :
    Level setup id w (w.note m) :=
  same rfl rfl (Setup.Weightless.nil.cons hm (.inl ho))

/-- A flag of a task is raised. -/
theorem updateTask (w : World) (j : Nat) (f : Task → Task) (hf : ∀ u : Task, u.Persists (f u)) :
    Level setup id w (w.updateTask j f) := by
  have hcount : ∀ q : Task → Bool, (∀ u, q (f u) = q u) →
      (w.tasks.modify j f).countP q = w.tasks.countP q := by
    intro q hq
    cases ht : w.tasks[j]? with
    | none => rw [List.modify_eq_self (by simpa using ht)]
    | some t =>
      have := countP_modify q f ht
      rw [hq] at this
      omega
  refine ⟨⟨[], rfl, .nil⟩, fun k t ht => ?_, fun k t' h h' => ?_, ?_, ?_⟩
  · by_cases hj : j = k
    · exact ⟨f t, by simp [World.updateTask, hj, ht], hf t⟩
    · exact ⟨t, by simp [World.updateTask, hj, ht], .refl t⟩
  · simp only [World.updateTask, List.getElem?_modify, h, Option.map_eq_map, Option.map_none] at h'
    cases h'
  · simp [World.updateTask, hcount _ fun u => (hf u).counts.1]
  · exact hcount _ fun u => (hf u).counts.2

theorem cancel (w : World) (j : Nat) : Level setup id w (w.cancel j) :=
  (updateTask w j (fun t => { t with cancelled := true }) fun _ =>
    ⟨rfl, rfl, rfl, fun h => by simp at h⟩).trans (note _ rfl rfl)

theorem attach (w : World) (c : String) (l : Listener) :
    Level setup id w (w.attach setup c l).2 := by
  unfold World.attach
  split
  · exact quiet rfl rfl
  · split
    · next j _ =>
      have hlist : Level setup id w { w with listeners := (w.listeners.enqueue c l).add c l } :=
        quiet rfl rfl
      exact (hlist.trans (note _ rfl rfl)).trans
        (updateTask _ j _ fun u => ⟨rfl, rfl, rfl, fun h => h⟩)
    · have hms : setup.Weightless id [.spawned w.tasks.length c
          ((w.slots.get? c).getD {}).begin.generation, .attached c l false] :=
        (Setup.Weightless.nil.cons rfl (.inl rfl)).cons rfl (.inl rfl)
      refine ⟨⟨_, rfl, hms⟩, fun j t ht => ?_, fun j t' hnone ht' => ?_, ?_, ?_⟩
      · have hlt := (List.getElem?_eq_some_iff.1 ht).1
        exact ⟨t, by simp [spawn, World.note, World.count, List.getElem?_append_left hlt, ht],
          .refl t⟩
      · simp only [spawn, World.note, World.count, List.getElem?_append] at ht'
        split at ht'
        · cases hnone.symm.trans ht'
        · rw [List.getElem?_singleton] at ht'
          split at ht' <;> cases ht'
          exact ⟨rfl, rfl, rfl⟩
      · simp [spawn, World.note, World.count, Task.isOpening, Position.isOpening]
        omega
      · simp [spawn, World.note, World.count, Task.isWaiting, Position.isWaiting]

theorem detach (w : World) (c : String) (l : Listener) : Level setup id w (w.detach c l).2.2 := by
  unfold World.detach
  have removed : ∀ (listeners : Listeners Listener) (handles : Table String Nat),
      Level setup id w (({ w with listeners, handles } : World).note (.detached c l)) :=
    fun _ _ => same rfl rfl (Setup.Weightless.nil.cons rfl (.inl rfl))
  split
  · exact quiet rfl rfl
  · dsimp only
    split
    · exact removed _ _
    · exact (removed _ _).trans (cancel _ _)
  · exact removed _ _

theorem close (w : World) : Level setup id w w.close.2 := by
  refine ⟨⟨[], rfl, .nil⟩, fun j t ht => ?_, fun j t' h h' => ?_, ?_, ?_⟩
  · exact ⟨{ t with cancelled := true }, by simp [World.close, cancelAll, ht],
      ⟨rfl, rfl, rfl, fun h => by cases h⟩⟩
  · simp [World.close, cancelAll, h] at h'
  · simp only [World.close, cancelAll, List.countP_map, List.length_map]
    rfl
  · simp only [World.close, cancelAll, List.countP_map]
    rfl

theorem edits (h : Edits setup w v) : Level setup id w v := by
  induction h with
  | aside h =>
    obtain ⟨ms, hms, hm⟩ := h.trace
    exact same h.tasks hm fun m hmem =>
      ⟨Setup.weighs_of_isAside (hms m hmem), .inl (Mark.owner?_of_isAside (hms m hmem))⟩
  | attach w c l => exact attach w c l
  | detach w c name => exact detach w c (.user name)
  | close w => exact close w
  | trans _ _ ih ih' => exact ih.trans ih'

end Level

/-! ## Steps of a task -/

/-- Just these marks are made; tasks, statuses and the time stay as they are, and so do the counters
of restarts and failures. -/
structure Told (w v : World) (ms : List Mark) : Prop where
  trace : v.trace = ms ++ w.trace
  tasks : v.tasks = w.tasks
  slots : v.slots = w.slots
  turns : v.counters.events.2 = w.counters.events.2
  clock : v.clock = w.clock
  draws : v.draws = w.draws

namespace Told

theorem same (hm : v.trace = w.trace) (ht : v.tasks = w.tasks) (hs : v.slots = w.slots)
    (hk : v.counters.events.2 = w.counters.events.2) (hc : v.clock = w.clock)
    (hd : v.draws = w.draws) : Told w v [] := ⟨hm, ht, hs, hk, hc, hd⟩

theorem refl (w : World) : Told w w [] := same rfl rfl rfl rfl rfl rfl

theorem note (h : Told w v ms) (m : Mark) : Told w (v.note m) (m :: ms) :=
  ⟨congrArg (m :: ·) h.trace, h.tasks, h.slots, h.turns, h.clock, h.draws⟩

theorem next {u : World} (h : Told w v ms) (h' : Told v u []) : Told w u ms :=
  ⟨h'.trace.trans h.trace, h'.tasks.trans h.tasks, h'.slots.trans h.slots, h'.turns.trans h.turns,
    h'.clock.trans h.clock, h'.draws.trans h.draws⟩

theorem count (w : World) {k : Counter} (hr : k ≠ .subscriptionRestarts)
    (hf : k ≠ .subscriptionFailures) : Told w (w.count k) [] := by
  refine same rfl rfl rfl ?_ rfl rfl
  cases k <;> first | rfl | exact absurd rfl hr | exact absurd rfl hf

theorem takePending (h : Told w v ms) (id : Nat) (c : String) :
    Told w (v.takePending id c).2 (.took id c (v.listeners.pending c) :: ms) :=
  ⟨congrArg (_ :: ·) h.trace, h.tasks, h.slots, h.turns, h.clock, h.draws⟩

theorem closeStream (w : World) (t : Task) : Told w (w.closeStream t) [] := by
  unfold World.closeStream
  split <;> exact same rfl rfl rfl rfl rfl rfl

theorem perform {α : Type} (w : World) (who : Actor) (call : StoreCall)
    (command : Memory → Except Fault (α × Memory)) {r : Except Fault α}
    (h : w.perform who call command = (r, v)) :
    Told w v [.stored who call (match r with | .ok _ => none | .error f => some f)] := by
  rcases perform_cases w who call command with ⟨f, faults, hp⟩ | ⟨a, store, faults, -, hp⟩ <;>
    cases hp.symm.trans h <;> exact ⟨rfl, rfl, rfl, rfl, rfl, rfl⟩

theorem level (h : Told w v ms) (hms : setup.Weightless id ms) : Level setup id w v :=
  .same h.tasks h.trace hms

end Told

/-- A task makes these marks and is changed so. -/
structure Alters (id : Nat) (w w' : World) (ms : List Mark) (f : Task → Task) : Prop where
  trace : w'.trace = ms ++ w.trace
  tasks : w'.tasks = w.tasks.modify id f

/-- A task makes marks that do not weigh, and then its attempt ends with one more. -/
structure Ends (setup : Setup) (id : Nat) (t : Task) (e : Ending) (m : Mark) (ms : List Mark) :
    Prop where
  before : setup.Weightless id ms
  ending : setup.ending? m = some (id, e)
  attempt : m.isAttempt = t.position.isOpening
  waiting : t.position.isWaiting = false

/-- What a step makes of the attempts of a task. -/
inductive Fate (setup : Setup) (w : World) (id : Nat) (t : Task) (w' : World) : Prop where
  /-- Nothing. -/
  | goes {v : World} {p : Position} (h : Level setup id w v) (hp : p.Resembles t.position)
      (heq : w' = v.moveTask id p) (hturns : w'.counters.events.2 = w.counters.events.2)
  /-- A stream was opened. -/
  | opened {key : String} {ms : List Mark} {p : Position}
      (h : Alters id w w' (ms ++ [.stored (.task id) (.subscribe key) none])
        fun u => { u with position := p })
      (hms : setup.Weightless id ms)
      (ho : t.position.isOpening = true) (hp : p.stream?.isSome = true)
      (hturns : w'.counters.events.2 = w.counters.events.2)
  | activated {s : Nat}
      (h : Alters id w w' [.published id .active] fun u => { u with
        failures := 0, backoff := u.backoff.reset, position := .listening s })
      (hp : t.position.stream?.isSome = true)
      (hturns : w'.counters.events.2 = w.counters.events.2)
  /-- The attempt ended, and with it the task. -/
  | failed {e : Ending} {m : Mark} {ms : List Mark} {f : Task → Task}
      (h : Alters id w w' (.ended id :: .published id .failed :: m :: ms) f)
      (hends : Ends setup id t e m ms)
      (hlast : e = .fatal ∨ 0 < setup.config.restart.maxAttempts ∧
        setup.config.restart.maxAttempts ≤ t.failures + 1 ∨ t.backoff.patience ≠ none)
      (hf : ∀ u, (f u).position = .ended ∧ (f u).cancelled = u.cancelled)
      (hturns : w'.counters.events.2 =
        (w.counters.subscriptionRestarts, w.counters.subscriptionFailures + 1))
  /-- The attempt ended, and the task waits for the next. -/
  | dropped {m : Mark} {ms : List Mark}
      (h : Alters id w w' (.published id .reconnecting :: m :: ms) fun u => { u with
        failures := t.failures + 1, backoff := t.backoff.next.2
        position := .waiting (w.clock + setup.delay w.draws t.backoff.next.1) })
      (hends : Ends setup id t .dropped m ms)
      (hleft : 0 < setup.config.restart.maxAttempts →
        t.failures + 1 < setup.config.restart.maxAttempts)
      (hturns : w'.counters.events.2 = w.counters.events.2)
  | retried {due : Nat} (hp : t.position = .waiting due) (hd : due ≤ w.clock)
      (h : Alters id w w' [] fun u => { u with position := .opening .arriving })
      (hturns : w'.counters.events.2 =
        (w.counters.subscriptionRestarts + 1, w.counters.subscriptionFailures))

/-- The task may write the status of its cluster. -/
def Heard (w : World) (t : Task) : Prop :=
  ∃ slot, w.slots.get? t.cluster = some slot ∧ slot.generation = t.generation

theorem publish_of_heard (h : w.Heard t) (id : Nat) (s : Status) :
    (w.publish id t s).trace = .published id s :: w.trace ∧ (w.publish id t s).tasks = w.tasks ∧
      (w.publish id t s).counters = w.counters := by
  obtain ⟨slot, hs, hg⟩ := h
  simp only [publish, hs, if_pos hg]
  exact ⟨rfl, rfl, rfl⟩

namespace Told

theorem heard (h : Told w v ms) (hw : w.Heard t) : v.Heard t := by
  obtain ⟨slot, hs, hg⟩ := hw
  exact ⟨slot, by rw [h.slots]; exact hs, hg⟩

theorem failTask (h : Told w v (m :: ms)) (hw : w.Heard t) (hends : Ends setup id t e m ms)
    (hlast : e = .fatal ∨ 0 < setup.config.restart.maxAttempts ∧
      setup.config.restart.maxAttempts ≤ t.failures + 1 ∨ t.backoff.patience ≠ none)
    (f : Task → Task)
    (hf : ∀ u, (f u).cancelled = u.cancelled) :
    Fate setup w id t ((v.updateTask id f).failTask id t) := by
  have hheard : ((v.updateTask id f).count .subscriptionFailures).Heard t := h.heard hw
  obtain ⟨htrace, htasks, hcounters⟩ := publish_of_heard hheard id .failed
  refine .failed (f := fun u => { f u with position := .ended }) ⟨?_, ?_⟩ hends hlast
    (fun u => ⟨rfl, hf u⟩) ?_
  · exact congrArg (.ended id :: ·) (htrace.trans (congrArg (.published id .failed :: ·) h.trace))
  · have hmodify : (w.tasks.modify id f).modify id (fun u => { u with position := .ended }) =
        w.tasks.modify id fun u => { f u with position := .ended } := List.modify_modify_eq ..
    rw [← hmodify, ← h.tasks]
    exact congrArg (List.modify · id _) htasks
  · have hturns := h.turns
    simp only [Counters.events, Prod.mk.injEq] at hturns
    show (Counters.events (World.publish _ id t .failed).counters).2 = _
    rw [hcounters]
    simp [World.count, Counters.incr, Counters.events, World.updateTask, hturns]

theorem dropAttempt (h : Told w v (m :: ms)) (hw : w.Heard t)
    (hends : Ends setup id t .dropped m ms) :
    Fate setup w id t (v.dropAttempt setup id t) := by
  rcases dropAttempt_cases setup v id t with ⟨hlast, heq⟩ | ⟨hleft, heq⟩ <;> rw [heq]
  · exact h.failTask hw hends (.inr hlast) _ fun _ => rfl
  · have hheard : (({ v with draws := v.draws + 1 } : World).updateTask id fun u => { u with
        failures := t.failures + 1, backoff := t.backoff.next.2
        position := .waiting (v.clock + setup.delay v.draws t.backoff.next.1) }).Heard t :=
      h.heard hw
    obtain ⟨htrace, htasks, hcounters⟩ := publish_of_heard hheard id .reconnecting
    refine .dropped ⟨?_, ?_⟩ hends hleft ?_
    · exact htrace.trans (congrArg (.published id .reconnecting :: ·) h.trace)
    · rw [← h.clock, ← h.draws, ← h.tasks]
      exact htasks
    · rw [hcounters]
      exact h.turns

theorem endAttempt (h : Told w v (m :: ms)) (hw : w.Heard t)
    (hends : Ends setup id t f.ending m ms) :
    Fate setup w id t (v.endAttempt setup id t f) := by
  have hclosed : Told w (v.closeStream t) (m :: ms) := h.next (.closeStream v t)
  unfold World.endAttempt
  dsimp only
  split
  · next hf =>
    rw [Fault.ending, if_pos hf] at hends
    have hself : (v.closeStream t).updateTask id (fun u => u) = v.closeStream t :=
      congrArg (fun tasks => { (v.closeStream t) with tasks }) (List.modify_id ..)
    rw [← hself]
    exact hclosed.failTask hw hends (.inl rfl) _ fun _ => rfl
  · next hf =>
    rw [Fault.ending, if_neg hf] at hends
    exact hclosed.dropAttempt hw hends

theorem goes (h : Told w v ms) (hms : setup.Weightless id ms) (hp : p.Resembles t.position) :
    Fate setup w id t (v.moveTask id p) :=
  .goes (h.level hms) hp rfl h.turns

/-- A call of a listener returned. -/
theorem afterCallback (h : Told w v ms) (hw : w.Heard t) (hms : setup.Weightless id ms)
    (hp : t.position.stream?.isSome = true) (s : Nat) (pass : Pass) (l : Listener)
    (fault : Option Fault) (rest : List Listener) :
    Fate setup w id t (v.afterCallback setup id t s pass l fault rest) := by
  have hnote := h.note (.returned id l pass.hook fault)
  have on : ∀ {u : World}, Told (v.note (.returned id l pass.hook fault)) u [] →
      setup.weighs (.returned id l pass.hook fault) = false →
      Fate setup w id t (u.moveTask id (.passing s pass rest)) := fun hu hlight =>
    (hnote.next hu).goes (hms.cons hlight (.inr rfl))
      (Position.resembles_of_stream? rfl hp)
  have off : ∀ {u : World} {f : Fault}, Told (v.note (.returned id l pass.hook fault)) u [] →
      fault = some f → pass.hook.isBroken fault = true →
      Fate setup w id t (u.endAttempt setup id t f) := by
    rintro u f hu rfl hbroken
    obtain ⟨ho, hwait, -⟩ := Position.of_stream? hp
    exact (hnote.next hu).endAttempt hw
      ⟨hms, by simp only [Setup.ending?, if_pos hbroken], ho.symm, hwait⟩
  have hcount : ∀ {k : Counter}, k ≠ .subscriptionRestarts → k ≠ .subscriptionFailures →
      Told (v.note (.returned id l pass.hook fault)) ((v.note _).count k) [] := .count _
  unfold World.afterCallback
  dsimp only
  split
  · exact on (.refl _) rfl
  · next f m =>
    split
    · next hf => exact off (hcount (by simp) (by simp)) rfl hf
    · next hf =>
      have hlight : setup.weighs (.returned id l (Pass.delivery m).hook (some f)) = false := by
        simp [Setup.weighs, Setup.ending?, Pass.hook, Hook.isBroken, hf]
      exact on (hcount (by simp) (by simp)) hlight
  · next f hpass =>
    refine off (.refl _) rfl ?_
    cases pass with
    | delivery m => exact (hpass m rfl).elim
    | _ => rfl

/-- A listener is called. -/
theorem call (h : Told w v ms) (hw : w.Heard t) (hms : setup.Weightless id ms)
    (hp : t.position.stream?.isSome = true) (s : Nat) (pass : Pass) (l : Listener)
    (rest : List Listener) : Fate setup w id t (v.call setup id t s pass l rest) := by
  have hnote := h.note (.called id l pass.hook)
  have hms' := hms.cons (m := .called id l pass.hook) rfl (.inr rfl)
  have on : ∀ {u : World} {cb : Callback}, Told (v.note (.called id l pass.hook)) u [] →
      Fate setup w id t (u.moveTask id (.calling s pass l cb rest)) := fun hu =>
    (hnote.next hu).goes hms' (Position.resembles_of_stream? rfl hp)
  unfold World.call
  dsimp only
  split
  · exact on (.same rfl rfl rfl rfl rfl rfl)
  · next message _ =>
    have happly : ∀ u : World, Told u (u.applyEvent t.cluster message).2 [] := fun u => by
      unfold World.applyEvent
      split
      · exact .refl u
      · exact .same rfl rfl rfl rfl rfl rfl
    exact (hnote.next (happly _)).afterCallback hw hms' hp s pass _ _ rest
  · exact on (.refl _)

/-- A payload is received. -/
theorem receive (h : Told w v ms) (hw : w.Heard t) (hms : setup.Weightless id ms)
    (hp : t.position.stream?.isSome = true) (s : Nat) (payload : String) :
    Fate setup w id t ((v.note (.read id (.message payload))).receive setup id t s payload) := by
  have hnote := h.note (.read id (.message payload))
  obtain ⟨ho, hwait, -⟩ := Position.of_stream? hp
  unfold World.receive
  split
  · next f hs =>
    exact hnote.endAttempt hw ⟨hms, by simp [Setup.ending?, hs], ho.symm, hwait⟩
  · next m hs =>
    have hcount : ∀ (u : World) {k : Counter}, k ≠ .subscriptionRestarts →
        k ≠ .subscriptionFailures → Told u (u.count k) [] := fun u _ => .count u
    have hreceived := hnote.next (hcount _ (by simp) (by simp) (k := .eventsReceived))
    dsimp only
    split
    · next f hd =>
      have hending : setup.ending? (.read id (.message payload)) = some (id, f.ending) := by
        simp [Setup.ending?, hs, hd, Fault.ending, Event.isFatal_of_decode hd]
      exact (hreceived.next (hcount _ (by simp) (by simp))).endAttempt hw
        ⟨hms, hending, ho.symm, hwait⟩
    · next e hd =>
      have htook := hreceived.takePending id t.cluster
      have hlight : setup.weighs (.read id (.message payload)) = false := by
        simp [Setup.weighs, Setup.ending?, hs, hd]
      have hms' := hms.cons hlight (.inr rfl)
      exact (htook.note _).goes ((hms'.cons rfl (.inr rfl)).cons rfl (.inr rfl))
        (Position.resembles_of_stream? rfl hp)

end Told

theorem settleAction_fate (h : Level setup id w v) (hk : v.counters.events = w.counters.events)
    (hp : t.position.stream?.isSome = true) (s : Nat) (pass : Pass) (l : Listener)
    (rest : List Listener) (name label : String) (more : List (String × Action))
    (fault : Option Fault) (q : Progress) :
    Fate setup w id t (v.settleAction id s pass l rest name label more fault q) := by
  cases q with
  | finished a =>
    exact .goes (h.trans (.note v rfl rfl)) (Position.resembles_of_stream? rfl hp) rfl
      (congrArg Prod.snd hk)
  | paused stage =>
    exact .goes h (Position.resembles_of_stream? rfl hp) rfl (congrArg Prod.snd hk)

/-- A pass has called all its listeners. -/
theorem finishPass_fate (hw : w.Heard t) (hp : t.position = .passing s pass []) :
    Fate setup w id t (w.finishPass id t s pass) := by
  have hinside : t.position.stream?.isSome = true := by rw [hp]; rfl
  have on : ∀ q : Position, q.stream?.isSome = true → Fate setup w id t (w.moveTask id q) :=
    fun q hq => (Told.refl w).goes .nil (Position.resembles_of_stream? hq hinside)
  cases pass with
  | full =>
    obtain ⟨htrace, htasks, hcounters⟩ := publish_of_heard hw id .active
    exact .activated ⟨htrace, congrArg (List.modify · id _) htasks⟩ hinside
      (congrArg (·.events.2) hcounters)
  | joined => exact on _ rfl
  | beforeDelivery m audience => exact on _ rfl
  | delivery m => exact on _ rfl

theorem TaskStep.fate (h : TaskStep setup w id t w') (hsup : Supervised w) (hw : w.Heard t) :
    Fate setup w id t w' := by
  cases h with
  | parked hp =>
    exact (Told.refl w).goes .nil (Position.resembles_of_clear hp)
  | refused hp hopen =>
    exact (Told.perform w _ _ _ hopen).dropAttempt hw
      ⟨.nil, rfl, by rw [hp]; rfl, by rw [hp]; rfl⟩
  | @opened g s v hp hopen =>
    have htold := ((Told.perform w _ _ _ hopen).takePending id t.cluster).note
      (.opened id s (v.store.log (registryKey t.cluster)).length)
    have hms : setup.Weightless id [.opened id s (v.store.log (registryKey t.cluster)).length,
        .took id t.cluster (v.listeners.pending t.cluster)] :=
      .cons (.cons .nil rfl (.inr rfl)) rfl (.inr rfl)
    have htrace : (v.beginFullPass id t s).trace =
        [.opened id s (v.store.log (registryKey t.cluster)).length,
          .took id t.cluster (v.listeners.pending t.cluster)] ++
        [.stored (.task id) (.subscribe (registryKey t.cluster)) none] ++ w.trace := htold.trace
    have htasks : (v.beginFullPass id t s).tasks = w.tasks.modify id fun u =>
        { u with position := .passing s .full (v.listeners.of t.cluster) } :=
      congrArg (List.modify · id _) htold.tasks
    exact .opened ⟨htrace, htasks⟩ hms (by rw [hp]; rfl) rfl htold.turns
  | passed hp => exact finishPass_fate hw hp
  | called hp => exact (Told.refl w).call hw .nil (by rw [hp]; rfl) _ _ _ _
  | unread hp hread =>
    exact (Told.perform w _ _ _ hread).afterCallback hw (.cons .nil rfl (.inl rfl))
      (by rw [hp]; rfl) _ _ _ _ _
  | read hp hread =>
    exact (Told.perform w _ _ _ hread).goes (.cons .nil rfl (.inl rfl))
      (Position.resembles_of_stream? rfl (by rw [hp]; rfl))
  | replaced hp =>
    exact (Told.same rfl rfl rfl rfl rfl rfl : Told w (w.updateCache _ _) []).afterCallback hw
      .nil (by rw [hp]; rfl) _ _ _ _ _
  | returned hp => exact (Told.refl w).afterCallback hw .nil (by rw [hp]; rfl) _ _ _ _ _
  | @acted s pass l name label a more fault rest v p hp hbegin =>
    have hdoing : Level setup id w (w.note (.doing name label)) := .note w rfl rfl
    have hsup' : Supervised (w.note (.doing name label)) := hsup.rests (.note w _)
    have hdeed := @begin_deed setup (w.note (.doing name label)) (.task id) a
    have hedits := @begin_edits setup (w.note (.doing name label)) (.task id) a
    rw [hbegin] at hdeed hedits
    exact settleAction_fate (hdoing.trans (.edits hedits)) (hdeed.events hsup') (by rw [hp]; rfl)
      _ _ _ _ _ _ _ _ _
  | resumed hp hresume =>
    have hdeed : Deed setup True (.task id) w _ _ _ := resume_deed hresume
    exact settleAction_fate (.edits (resume_edits hresume)) (hdeed.events hsup) (by rw [hp]; rfl)
      _ _ _ _ _ _ _ _ _
  | @woken s v hp hn hv =>
    subst hv
    have hseen : Level setup id w (w.updateTask id fun t => { t with notified := false }) :=
      .updateTask w id _ fun _ => ⟨rfl, rfl, rfl, fun h => h⟩
    have htook := (Told.refl (w.updateTask id fun t => { t with notified := false })).takePending
      id t.cluster
    exact .goes (hseen.trans (htook.level (.cons .nil rfl (.inr rfl))))
      (Position.resembles_of_stream? rfl (by rw [hp]; rfl)) rfl htook.turns
  | @received s payload store hp hn hnext =>
    exact (Told.same rfl rfl rfl rfl rfl rfl : Told w { w with store } []).receive hw .nil
      (by rw [hp]; rfl) _ _
  | @closed s r f store hp hn hnext hr =>
    have hstore : Told w { w with store } [] := .same rfl rfl rfl rfl rfl rfl
    have hending : setup.ending? (.read id r) = some (id, f.ending) := by
      rcases hr with ⟨rfl, rfl⟩ | ⟨n, rfl, rfl⟩ <;> rfl
    exact (hstore.note (.read id r)).endAttempt hw
      ⟨.nil, hending, by rw [hp]; rfl, by rw [hp]; rfl⟩
  | retried hp hd =>
    exact .retried hp hd ⟨rfl, rfl⟩ rfl

/-- A cancelled task stops, and writes so unless it was superseded. -/
theorem stopTask_turns (w : World) (id : Nat) (t : Task) :
    ∃ ms, (ms = [] ∨ ms = [.published id .stopped]) ∧
      Alters id w (w.stopTask id t) (.ended id :: ms) (fun u => { u with position := .ended }) ∧
      (w.stopTask id t).counters.events.2 = w.counters.events.2 := by
  have finished : ∀ {v : World}, Told w v [] →
      ∃ ms, (ms = [] ∨ ms = [.published id .stopped]) ∧
        Alters id w (v.finishTask id t .stopped) (.ended id :: ms)
          (fun u => { u with position := .ended }) ∧
        (v.finishTask id t .stopped).counters.events.2 = w.counters.events.2 := by
    intro v hv
    unfold World.finishTask
    rcases Ruled.publish_cases v id t .stopped with ⟨slot, -, -, heq⟩ | ⟨-, heq⟩ <;> rw [heq]
    · exact ⟨[_], .inr rfl, ⟨congrArg (Mark.ended id :: Mark.published id .stopped :: ·) hv.trace,
        congrArg (List.modify · id _) hv.tasks⟩, hv.turns⟩
    · exact ⟨[], .inl rfl, ⟨congrArg (Mark.ended id :: ·) hv.trace,
        congrArg (List.modify · id _) hv.tasks⟩, hv.turns⟩
  have closed : ∀ {v : World}, Told w v [] → Told w (v.closeStream t) [] :=
    fun hv => hv.next (.closeStream _ t)
  unfold World.stopTask
  dsimp only
  split
  · next stage _ _ _ _ =>
    refine finished (closed ?_)
    rcases abandon_cases w (.task id) stage with heq | ⟨c, heq⟩ <;> rw [heq]
    · exact .refl w
    · exact .same rfl rfl rfl rfl rfl rfl
  · exact finished (closed (.refl w))

end World

end Muster
