import Muster.Proofs.Authors
import Muster.Proofs.Calls
import Muster.Proofs.RegistrationEras
import Muster.Proofs.Restarts

/-!
# Waking a task for those who join

Whoever joins a running task is queued, and the task is woken to serve the queue. The queue is that
of the cluster, whichever task serves it, and a task empties it also at other times than when it is
woken; so the queue and the flag of the task come apart. But a task that has a stream, and was not
cancelled, always knows of a queue that is not empty (`World.Alert`).
-/
namespace Muster

/-- The calls that a task made, in order. -/
def visitsOf (id : Nat) : List Mark → List Visit
  | [] => []
  | .called i l h :: past => if i = id then visitsOf id past ++ [(l, h)] else visitsOf id past
  | _ :: past => visitsOf id past

theorem visitsOf_cons {m : Mark} {id : Nat} {past : List Mark}
    (h : ∀ l hook, m ≠ .called id l hook) : visitsOf id (m :: past) = visitsOf id past := by
  cases m with
  | called i l hook =>
    have hi : i ≠ id := fun hi => h l hook (by rw [hi])
    simp [visitsOf, hi]
  | _ => rfl

/-- As long as no stream is opened, an attempt that is not over has made the calls that it had made
before and those of the marks since, and what was due stays due. -/
theorem Laws.visited {setup : Setup} {c : String} {id : Nat} {base since : List Mark}
    (h : Laws setup c id (since ++ base)) (hp : (attempt setup c id (since ++ base)).phase ≠ .over)
    (hnone : ∀ s start, .opened id s start ∉ since) :
    (attempt setup c id base).phase ≠ .over ∧
      (attempt setup c id (since ++ base)).calls =
        (attempt setup c id base).calls ++ visitsOf id since ∧
      (attempt setup c id base).agenda <+: (attempt setup c id (since ++ base)).agenda := by
  induction since with
  | nil => exact ⟨hp, (List.append_nil _).symm, List.prefix_rfl⟩
  | cons m since ih =>
    have hgrows := Laws.grows h hp
    have hbefore := (hgrows.phase hp).resolve_right fun ⟨s, start, hm⟩ =>
      hnone s start (hm ▸ List.mem_cons_self)
    obtain ⟨hphase, hcalls, hagenda⟩ :=
      ih h.2 hbefore fun s start hm => hnone s start (List.mem_cons_of_mem _ hm)
    refine ⟨hphase, ?_⟩
    rw [List.cons_append]
    generalize attempt setup c id (m :: (since ++ base)) = a' at hgrows
    cases hgrows with
    | other howner =>
      rw [visitsOf_cons fun l hook hm => howner (by rw [hm]; rfl)]
      exact ⟨hcalls, hagenda⟩
    | opened => exact absurd List.mem_cons_self (hnone _ _)
    | took => exact ⟨hcalls, hagenda.trans (List.prefix_append _ _)⟩
    | called => exact ⟨by simp [visitsOf, hcalls], hagenda⟩
    | returned => exact ⟨hcalls, hagenda⟩
    | read => exact ⟨hcalls, hagenda⟩
    | dispatched => exact ⟨hcalls, hagenda.trans (List.prefix_append _ _)⟩
    | wrote hm =>
      rw [visitsOf_cons fun l hook heq => by rcases hm with rfl | ⟨s, rfl⟩ <;> cases heq]
      exact ⟨hcalls, hagenda⟩

/-- A task that takes the queue while it listens calls all of the queue before it reads on, unless
it opens another stream. -/
theorem Laws.queue_called {setup : Setup} {c : String} {id : Nat} {base since : List Mark}
    {queue : List Listener} {r : Reading}
    (h : Laws setup c id (.read id r :: (since ++ .took id c queue :: base)))
    (hnone : ∀ s start, .opened id s start ∉ since) :
    queue = queued c base ∧ visitsTo queue .sync <+: visitsOf id since := by
  obtain ⟨hread, hlaws⟩ := h
  obtain ⟨hbetween, hdone, -⟩ := hread rfl
  obtain ⟨hphase, hcalls, hagenda⟩ := hlaws.visited (by simp [hbetween]) hnone
  obtain ⟨-, hqueue, hwhen⟩ := (hlaws.suffix (List.suffix_append _ _)).1 rfl
  have htook : attempt setup c id (.took id c queue :: base) = { attempt setup c id base with
      agenda := (attempt setup c id base).agenda ++ visitsTo queue .sync } := by
    simp [attempt, Attempt.after, hqueue]
  rw [htook] at hphase hcalls hagenda
  rcases hwhen with ⟨key, before, rfl⟩ | ⟨-, hbefore⟩
  · simp [attempt, Attempt.after] at hphase
  · rw [← hdone, hcalls] at hagenda
    simp only [hbefore, List.prefix_append_right_inj] at hagenda
    exact ⟨hqueue, hagenda⟩

namespace World

variable {setup : Setup} {w v w' : World} {id j : Nat} {t : Task} {p : Position}

/-- A task that has a stream and was not cancelled knows of the queue, if anybody is in it. -/
def Alert (id : Nat) (w : World) : Prop :=
  ∀ t, w.tasks[id]? = some t → t.cancelled = false → t.position.stream?.isSome = true →
    w.listeners.pending t.cluster ≠ [] → t.notified = true

/-- The task neither gets a stream nor loses its flag. -/
def Faithful (id : Nat) (w w' : World) : Prop :=
  ∀ t', w'.tasks[id]? = some t' → t'.cancelled = false → t'.position.stream?.isSome = true →
    ∃ t, w.tasks[id]? = some t ∧ t.cluster = t'.cluster ∧ t.cancelled = false ∧
      t.position.stream?.isSome = true ∧ (t.notified = true → t'.notified = true)

/-- Nor is anybody queued. -/
structure Mild (id : Nat) (w w' : World) : Prop where
  pending : ∀ c, w'.listeners.pending c ≠ [] → w.listeners.pending c ≠ []
  task : Faithful id w w'

/-- Listeners and tasks are as they were. -/
structure Still (w v : World) : Prop where
  listeners : v.listeners = w.listeners
  tasks : v.tasks = w.tasks

namespace Still

theorem refl (w : World) : Still w w := ⟨rfl, rfl⟩

theorem trans {a b c : World} (h : Still a b) (h' : Still b c) : Still a c :=
  ⟨h'.listeners.trans h.listeners, h'.tasks.trans h.tasks⟩

theorem aside (h : Aside w v) : Still w v := ⟨h.listeners, h.tasks⟩

theorem publish (w : World) (id : Nat) (t : Task) (s : Status) : Still w (w.publish id t s) := by
  obtain ⟨htasks, -, hlisteners, -⟩ := publish_others w id t s
  exact ⟨hlisteners, htasks⟩

theorem perform {α : Type} (w : World) (who : Actor) (call : StoreCall)
    (command : Memory → Except Fault (α × Memory)) {r : Except Fault α}
    (h : w.perform who call command = (r, v)) : Still w v := by
  rcases perform_cases w who call command with ⟨f, faults, hp⟩ | ⟨a, store, faults, -, hp⟩ <;>
    cases hp.symm.trans h <;> exact ⟨rfl, rfl⟩

theorem applyEvent (w : World) (c message : String) : Still w (w.applyEvent c message).2 := by
  unfold World.applyEvent
  split <;> exact ⟨rfl, rfl⟩

end Still

theorem Faithful.trans {a b c : World} (h : Faithful id a b) (h' : Faithful id b c) :
    Faithful id a c := by
  intro t ht hcan hs
  obtain ⟨u, hu, hc, hcan, hs, hn⟩ := h' t ht hcan hs
  obtain ⟨x, hx, hc', hcan, hs, hn'⟩ := h u hu hcan hs
  exact ⟨x, hx, hc'.trans hc, hcan, hs, fun hx => hn (hn' hx)⟩

/-- A task is changed so that this one gets neither a stream nor loses its flag. -/
theorem Faithful.modify {f : Task → Task} (hv : v.tasks = w.tasks.modify j f)
    (hf : j = id → ∀ u, w.tasks[id]? = some u → (f u).cluster = u.cluster ∧
      ((f u).cancelled = false → u.cancelled = false) ∧
      ((f u).position.stream?.isSome = true → u.position.stream?.isSome = true) ∧
      (u.notified = true → (f u).notified = true)) : Faithful id w v := by
  intro t ht hc hs
  rw [hv, List.getElem?_modify] at ht
  obtain ⟨u, hu, rfl⟩ := Option.map_eq_some_iff.1 ht
  by_cases hj : j = id
  · rw [if_pos hj] at hc hs ⊢
    obtain ⟨hcl, hcan, hst, hn⟩ := hf hj u hu
    exact ⟨u, hu, hcl.symm, hcan hc, hst hs, hn⟩
  · rw [if_neg hj] at hc hs ⊢
    exact ⟨u, hu, rfl, hc, hs, fun h => h⟩

namespace Mild

theorem refl (w : World) : Mild id w w :=
  ⟨fun _ h => h, fun t ht hc hs => ⟨t, ht, rfl, hc, hs, fun h => h⟩⟩

theorem trans {a b c : World} (h : Mild id a b) (h' : Mild id b c) : Mild id a c :=
  ⟨fun c hc => h.pending c (h'.pending c hc), h.task.trans h'.task⟩

/-- The tasks are as they were, and nobody is queued where nobody was. -/
theorem leaving (hp : ∀ c, v.listeners.pending c ≠ [] → w.listeners.pending c ≠ [])
    (ht : v.tasks = w.tasks) : Mild id w v := by
  refine ⟨hp, fun t h hc hs => ⟨t, ?_, rfl, hc, hs, fun hn => hn⟩⟩
  rw [← ht]
  exact h

theorem still (h : Still w v) : Mild id w v :=
  leaving (fun _ hc => h.listeners ▸ hc) h.tasks

theorem updateTask (w : World) (j : Nat) (f : Task → Task)
    (hf : j = id → ∀ u, w.tasks[id]? = some u → (f u).cluster = u.cluster ∧
      ((f u).cancelled = false → u.cancelled = false) ∧
      ((f u).position.stream?.isSome = true → u.position.stream?.isSome = true) ∧
      (u.notified = true → (f u).notified = true)) : Mild id w (w.updateTask j f) :=
  ⟨fun _ h => h, .modify rfl hf⟩

theorem takePending (w : World) (j : Nat) (c : String) : Mild id w (w.takePending j c).2 := by
  refine .leaving (fun c' h => ?_) rfl
  by_cases hc : c = c'
  · simp [World.takePending, World.note, hc] at h
  · simpa [World.takePending, World.note, hc] using h

/-- Another task goes on. -/
theorem acts (hj : j ≠ id) (a : Acts j t w w') : Mild id w w' := by
  induction a with
  | aside h => exact still (.aside h)
  | note => exact still ⟨rfl, rfl⟩
  | update w f => exact updateTask w j f fun h => absurd h hj
  | publish w => exact still (.publish w _ _ _)
  | took w => exact takePending w j _
  | store => exact still ⟨rfl, rfl⟩
  | trans _ _ ih ih' => exact ih.trans ih'

theorem finishes (hj : j ≠ id) (h : Finishes j t w w') : Mild id w w' := by
  cases h with
  | on ha => exact acts hj ha
  | @off v s ha =>
    have hended : Mild id (v.publish j t s) ((v.publish j t s).moveTask j .ended) :=
      updateTask _ j _ fun h => absurd h hj
    exact ((acts hj ha).trans (still (.publish v j t s))).trans (hended.trans (still ⟨rfl, rfl⟩))

theorem cancel (w : World) (j : Nat) : Mild id w (w.cancel j) := by
  have hflag : Mild id w (w.updateTask j fun t => { t with cancelled := true }) :=
    updateTask w j _ fun _ u _ => ⟨rfl, nofun, fun h => h, fun h => h⟩
  exact hflag.trans (still ⟨rfl, rfl⟩)

theorem detach (w : World) (c : String) (l : Listener) : Mild id w (w.detach c l).2.2 := by
  have removed : ∀ (handles : Table String Nat), Mild id w
      (({ w with listeners := (w.listeners.remove c l).2, handles } : World).note
        (.detached c l)) := by
    intro handles
    refine .leaving (fun c' h => ?_) rfl
    by_cases hl : l ∈ w.listeners.of c
    · have hpending := Listeners.pending_remove hl c'
      intro hnone
      refine h (hpending.trans ?_)
      split
      · next hc =>
        subst hc
        simp [hnone]
      · exact hnone
    · rwa [Listeners.remove_of_not_mem hl] at h
  unfold World.detach
  split
  · exact refl w
  · next listeners heq =>
    rw [heq] at removed
    dsimp only
    split
    · exact removed _
    · exact (removed _).trans (cancel _ _)
  · next listeners heq =>
    rw [heq] at removed
    exact removed w.handles

end Mild

/-- Whoever joins a task raises its flag; none is lowered. -/
theorem Faithful.attach (w : World) (c : String) (l : Listener) :
    Faithful id w (w.attach setup c l).2 := by
  unfold World.attach
  split
  · exact (Mild.refl w).task
  · split
    · exact .modify rfl fun _ u _ => ⟨rfl, fun h => h, fun h => h, fun _ => rfl⟩
    · intro t ht hc hs
      simp only [spawn, World.note, World.count, List.getElem?_append] at ht
      split at ht
      · exact ⟨t, ht, rfl, hc, hs, fun h => h⟩
      · rw [List.getElem?_singleton] at ht
        split at ht <;> cases ht
        cases hs

theorem Faithful.edits (e : Edits setup w w') : Faithful id w w' := by
  induction e with
  | aside ha => exact (Mild.still (.aside ha)).task
  | attach w c l => exact .attach w c l
  | detach w c name => exact (Mild.detach w c _).task
  | close w =>
    intro t ht hc
    simp only [World.close, cancelAll, List.getElem?_map] at ht
    obtain ⟨u, -, rfl⟩ := Option.map_eq_some_iff.1 ht
    cases hc
  | trans _ _ ih ih' => exact ih.trans ih'

theorem Faithful.turn (hj : j ≠ id) (h : Turn setup j t w w') : Faithful id w w' := by
  cases h with
  | own hf => exact (Mild.finishes hj hf).task
  | called he => exact (Faithful.edits he).trans (.modify rfl fun h => absurd h hj)

/-- Others neither open a stream for the task nor lower its flag. -/
theorem Faithful.move {m : Move} (hm : w.move setup m = some w') (hne : m ≠ .step (.task id)) :
    Faithful id w w' := by
  cases m with
  | step who =>
    cases who with
    | call c => exact .edits (stepCall_edits hm)
    | task j =>
      have hj : j ≠ id := fun hj => hne (hj ▸ rfl)
      obtain ⟨u, hu, hm⟩ := Option.bind_eq_some_iff.1 hm
      unfold stepTask at hm
      split at hm
      · cases hm
      · next he =>
        split at hm
        · cases hm
          exact (Mild.finishes hj (stopTask_finishes w)).task
        · exact .turn hj ((advanceTask_cases hm).turn (by simpa using he))
  | ask c a =>
    simp only [World.move] at hm
    split at hm <;> cases hm
    exact .edits (ask_edits w c a)
  | drop c =>
    cases hm
    exact .edits (@dropCall_edits setup w c)
  | clear who =>
    cases hm
    cases who with
    | call c => exact (Mild.still ⟨rfl, rfl⟩).task
    | task j =>
      exact .modify rfl fun _ u _ =>
        ⟨rfl, fun h => h, fun hs => by rwa [Position.stream?_clear] at hs, fun h => h⟩
  | free _ | elapse _ =>
    cases hm
    exact (Mild.still ⟨rfl, rfl⟩).task

namespace Alert

theorem mild (h : Alert id w) (hm : Mild id w w') : Alert id w' := by
  intro t ht hc hs hp
  obtain ⟨u, hu, hcl, hcu, hsu, hn⟩ := hm.task t ht hc hs
  exact hn (h u hu hcu hsu (hcl ▸ hm.pending _ hp))

/-- A task without a stream has nothing to know. -/
theorem streamless (h : ∀ t, w.tasks[id]? = some t → t.position.stream? = none) : Alert id w := by
  intro t ht _ hs
  rw [h t ht] at hs
  cases hs

/-- Nobody is queued. -/
theorem served (h : ∀ t, w.tasks[id]? = some t → w.listeners.pending t.cluster = []) :
    Alert id w :=
  fun t ht _ _ hp => absurd (h t ht) hp

theorem start (store : Memory) : Alert id { store } := streamless fun t ht => by simp at ht

/-- The task with the stream is changed, but not its flags. -/
theorem changed (h : Alert id w) (hv : Still w v) (ht : w.tasks[id]? = some t)
    (hin : t.position.stream?.isSome = true) {f : Task → Task}
    (hf : ∀ u, (f u).cluster = u.cluster ∧ (f u).cancelled = u.cancelled ∧
      (f u).notified = u.notified) : Alert id (v.updateTask id f) := by
  refine (h.mild (.still hv)).mild (.updateTask v id f fun _ u hu => ?_)
  obtain ⟨hcluster, hcancelled, hnotified⟩ := hf u
  rw [hv.tasks, ht] at hu
  cases hu
  exact ⟨hcluster, fun hc => hcancelled ▸ hc, fun _ => hin, fun hn => hnotified.trans hn⟩

/-- It goes to another place. -/
theorem moveTask (h : Alert id w) (hv : Still w v) (ht : w.tasks[id]? = some t)
    (hin : t.position.stream?.isSome = true) (p : Position) : Alert id (v.moveTask id p) :=
  h.changed hv ht hin fun _ => ⟨rfl, rfl, rfl⟩

/-! ### Listeners come -/

/-- Whoever joins a task wakes it; and a task that is live is the one that is joined. -/
theorem attach (h : Alert id w) (hsup : Supervised w) (c : String) (l : Listener) :
    Alert id (w.attach setup c l).2 := by
  unfold World.attach
  split
  · exact h
  · rcases hsup.joinable?_cases c with ⟨j, hj, hhandle⟩ | ⟨hj, -⟩
    · rw [hj]
      intro t ht hc hs hp
      by_cases hid : j = id
      · subst hid
        simp only [updateTask, World.note, List.getElem?_modify, if_true] at ht
        obtain ⟨u, -, rfl⟩ := Option.map_eq_some_iff.1 ht
        rfl
      · have hold : w.tasks[id]? = some t := by simpa [updateTask, World.note, hid] using ht
        have hlive : t.isEnded = false := Task.isEnded_of_ne (Position.of_stream? hs).2.2
        have hother : c ≠ t.cluster := by
          rintro rfl
          have hheld := hsup.held (charge?_of_task hold) hlive hc
          exact hid (Option.some.inj (hhandle.symm.trans hheld))
        refine h t hold hc hs ?_
        simpa [updateTask, World.note, hother] using hp
    · rw [hj]
      intro t ht hc hs hp
      simp only [spawn, World.note, World.count, List.getElem?_append] at ht
      split at ht
      · exact h t ht hc hs hp
      · rw [List.getElem?_singleton] at ht
        split at ht <;> cases ht
        cases hs

theorem edits (h : ∀ id, Alert id w) (hsup : Supervised w) (e : Edits setup w w') :
    ∀ id, Alert id w' := by
  induction e with
  | aside ha => exact fun id => (h id).mild (.still (.aside ha))
  | attach w c l => exact fun id => (h id).attach hsup c l
  | detach w c name => exact fun id => (h id).mild (.detach w c _)
  | close w =>
    intro id t ht hc
    simp only [World.close, cancelAll, List.getElem?_map] at ht
    obtain ⟨u, -, rfl⟩ := Option.map_eq_some_iff.1 ht
    cases hc
  | trans he _ ih ih' => exact ih' (ih h hsup) (hsup.edits he)

/-! ### Steps of a task -/

theorem finishTask (w : World) (id : Nat) (t : Task) (s : Status) :
    Alert id (w.finishTask id t s) := by
  refine streamless fun u hu => ?_
  have hu : ((w.publish id t s).moveTask id .ended).tasks[id]? = some u := hu
  simp only [World.moveTask, updateTask, List.getElem?_modify, if_true] at hu
  obtain ⟨x, -, rfl⟩ := Option.map_eq_some_iff.1 hu
  rfl

theorem dropAttempt (w : World) (id : Nat) (t : Task) :
    Alert id (w.dropAttempt setup id t) := by
  rcases dropAttempt_cases setup w id t with ⟨-, heq⟩ | ⟨-, heq⟩ <;> rw [heq]
  · exact finishTask _ id t .failed
  · refine streamless fun u hu => ?_
    rw [(Still.publish _ id t .reconnecting).tasks] at hu
    simp only [updateTask, List.getElem?_modify, if_true] at hu
    obtain ⟨x, -, rfl⟩ := Option.map_eq_some_iff.1 hu
    rfl

theorem endAttempt (w : World) (id : Nat) (t : Task) (f : Fault) :
    Alert id (w.endAttempt setup id t f) := by
  unfold World.endAttempt
  dsimp only
  split
  · exact finishTask _ id t .failed
  · exact dropAttempt _ id t

section
variable {s : Nat} {pass : Pass} {l : Listener} {rest : List Listener}

theorem afterCallback (h : Alert id w) (hv : Still w v) (ht : w.tasks[id]? = some t)
    (hin : t.position.stream?.isSome = true) (fault : Option Fault) :
    Alert id (v.afterCallback setup id t s pass l fault rest) := by
  unfold World.afterCallback
  dsimp only
  split
  · exact h.moveTask (hv.trans ⟨rfl, rfl⟩) ht hin _
  · split
    · exact endAttempt _ id t _
    · exact h.moveTask (hv.trans ⟨rfl, rfl⟩) ht hin _
  · exact endAttempt _ id t _

theorem call (h : Alert id w) (ht : w.tasks[id]? = some t)
    (hin : t.position.stream?.isSome = true) : Alert id (w.call setup id t s pass l rest) := by
  have hnote : Still w (w.note (.called id l pass.hook)) := ⟨rfl, rfl⟩
  unfold World.call
  dsimp only
  split
  · exact h.moveTask ⟨rfl, rfl⟩ ht hin _
  · exact h.afterCallback (hnote.trans (.applyEvent _ t.cluster _)) ht hin _
  · exact h.moveTask hnote ht hin _

theorem finishPass (h : Alert id w) (ht : w.tasks[id]? = some t)
    (hin : t.position.stream?.isSome = true) : Alert id (w.finishPass id t s pass) := by
  have hmove : ∀ p, Alert id (w.moveTask id p) := h.moveTask (.refl w) ht hin
  cases pass with
  | full => exact h.changed (.publish w id t .active) ht hin fun _ => ⟨rfl, rfl, rfl⟩
  | joined => exact hmove _
  | beforeDelivery m audience => exact hmove _
  | delivery m => exact hmove _

theorem settleAction (h : Alert id v) (ht : v.tasks[id]? = some t)
    (hin : t.position.stream?.isSome = true) (name label : String)
    (more : List (String × Action)) (fault : Option Fault) (p : Progress) :
    Alert id (v.settleAction id s pass l rest name label more fault p) := by
  cases p with
  | finished a => exact h.moveTask ⟨rfl, rfl⟩ ht hin _
  | paused stage => exact h.moveTask (.refl v) ht hin _

end

/-- The task takes the queue and goes on. -/
theorem takePending {v : World} (ht : v.tasks[id]? = some t) (ms : List Mark) (p : Position) :
    Alert id ({ (v.takePending id t.cluster).2 with
      trace := ms ++ (v.takePending id t.cluster).2.trace }.moveTask id p) := by
  refine served fun u hu => ?_
  simp only [World.moveTask, updateTask, World.takePending, World.note, List.getElem?_modify,
    if_true, ht] at hu
  cases hu
  simp [World.moveTask, updateTask, World.takePending, World.note]

theorem receive (ht : w.tasks[id]? = some t) (s : Nat) (payload : String) :
    Alert id (w.receive setup id t s payload) := by
  unfold World.receive
  split
  · exact endAttempt w id t _
  · next m _ =>
    dsimp only
    split
    · exact endAttempt _ id t _
    · exact takePending (v := w.count .eventsReceived) ht [.dispatched id m _] _

/-- The steps of the task itself. -/
theorem step (h : ∀ id, Alert id w) (hsup : Supervised w) (ht : w.tasks[id]? = some t)
    (hstep : TaskStep setup w id t w') : Alert id w' := by
  have mine := h id
  have found : ∀ {v : World}, Still w v → v.tasks[id]? = some t := fun hv => by
    rw [hv.tasks]
    exact ht
  -- A listener's action may bring or take listeners; the task is still in its call.
  have acting : ∀ {v : World}, Edits setup w v → ∃ u, Alert id v ∧ v.tasks[id]? = some u ∧
      u.position = t.position := by
    intro v he
    obtain ⟨u, hu, -, hp, -⟩ := (Elsewhere.edits he : Elsewhere id w v).task t ht
    exact ⟨u, edits h hsup he id, hu, hp⟩
  cases hstep with
  | @parked p hp =>
    refine mine.mild (.updateTask w id _ fun _ u hu => ⟨rfl, fun h => h, ?_, fun h => h⟩)
    cases ht.symm.trans hu
    intro hs
    rwa [← Position.stream?_clear, ← hp, Position.stream?_clear]
  | refused hp hopen => exact dropAttempt _ id t
  | @opened g s v hp hopen =>
    exact takePending (found (.perform w _ _ _ hopen)) [.opened id s _] _
  | passed hp => exact mine.finishPass ht (by rw [hp]; rfl)
  | called hp => exact mine.call ht (by rw [hp]; rfl)
  | unread hp hread =>
    exact mine.afterCallback (.perform w _ _ _ hread) ht (by rw [hp]; rfl) _
  | read hp hread => exact mine.moveTask (.perform w _ _ _ hread) ht (by rw [hp]; rfl) _
  | replaced hp =>
    exact mine.afterCallback (.aside (.updateCache w t.cluster _)) ht (by rw [hp]; rfl) _
  | returned hp => exact mine.afterCallback (.refl w) ht (by rw [hp]; rfl) _
  | @acted s pass l name label a more fault rest v p hp hbegin =>
    have he : Edits setup w v := by
      have hdoing : Edits setup w (w.note (.doing name label)) := .aside (.note w rfl)
      have hedits := @begin_edits setup (w.note (.doing name label)) (.task id) a
      rw [hbegin] at hedits
      exact hdoing.trans hedits
    obtain ⟨u, hv, hu, hpos⟩ := acting he
    exact hv.settleAction hu (by rw [hpos, hp]; rfl) _ _ _ _ _
  | resumed hp hresume =>
    obtain ⟨u, hv, hu, hpos⟩ := acting (resume_edits hresume)
    exact hv.settleAction hu (by rw [hpos, hp]; rfl) _ _ _ _ _
  | @woken s v hp hn hv =>
    have hfound : v.tasks[id]? = some { t with notified := false } := by
      rw [hv]
      simp [updateTask, ht]
    exact takePending hfound [] _
  | @received s payload store hp hn hnext =>
    have hread : Still w ({ w with store }.note (.read id (.message payload))) := ⟨rfl, rfl⟩
    exact receive (found hread) s payload
  | closed hp hn hnext hr => exact endAttempt _ id t _
  | @retried due hp hd =>
    refine streamless fun u hu => ?_
    simp only [World.moveTask, updateTask, World.count, List.getElem?_modify, if_true, ht] at hu
    cases hu
    rfl

theorem move {m : Move} (h : ∀ id, Alert id w) (hsup : Supervised w)
    (hm : w.move setup m = some w') : ∀ id, Alert id w' := by
  intro id
  cases move_cases hm with
  | edits he => exact edits h hsup he id
  | @cleared j t ht =>
    refine (h id).mild (.updateTask w j _ fun hj u hu => ⟨rfl, fun h => h, ?_, fun h => h⟩)
    subst hj
    cases ht.symm.trans hu
    exact fun hs => by rwa [Position.stream?_clear] at hs
  | @stopped j t ht =>
    by_cases hj : j = id
    · subst hj
      exact finishTask _ j t .stopped
    · exact (h id).mild (.finishes hj (stopTask_finishes w))
  | @went j t _ ht he hc hstep =>
    by_cases hj : j = id
    · subst hj
      exact step h hsup ht hstep
    · cases hstep.turn he with
      | own hf => exact (h id).mild (.finishes hj hf)
      | called hcalled =>
        exact (edits h hsup hcalled id).mild (.updateTask _ j _ fun h => absurd h hj)

theorem of_reachable {setups : Nat → Setup} {f : Fleet} (hf : Fleet.Reachable setups f) {i : Nat}
    (hw : f.world? i = some w) (id : Nat) : Alert id w := by
  have hboth : Supervised w ∧ ∀ id, Alert id w :=
    hf.keeps (P := fun w => Supervised w ∧ ∀ id, Alert id w)
      (fun store => ⟨.start store, fun _ => .start store⟩)
      (fun _ _ h => ⟨h.1.rests (.quiet rfl rfl rfl rfl rfl),
        fun id => (h.2 id).mild (.still ⟨rfl, rfl⟩)⟩)
      (fun _ _ _ _ h hm => ⟨h.1.move hm, move h.2 h.1 hm⟩) hw
  exact hboth.2 id

end Alert

/-! ## What a task does first -/

/-- A task that listens and was woken takes the queue, whatever is in the stream. -/
theorem step_woken {s : Nat} (ht : w.tasks[id]? = some t) (hc : t.cancelled = false)
    (hp : t.position = .listening s) (hn : t.notified = true) :
    ∃ w', w.move setup (.step (.task id)) = some w' ∧
      w'.trace = .took id t.cluster (w.listeners.pending t.cluster) :: w.trace ∧
      w'.tasks[id]? = some { t with
        notified := false, position := .passing s .joined (w.listeners.pending t.cluster) } ∧
      w'.listeners.pending t.cluster = [] := by
  have he : t.isEnded = false := Task.isEnded_of_ne (by simp [hp])
  have hstep : w.move setup (.step (.task id)) =
      some (((w.updateTask id fun t => { t with notified := false }).takePending id
        t.cluster).2.moveTask id (.passing s .joined (w.listeners.pending t.cluster))) := by
    simp only [World.move, World.step, ht, Option.bind_some, stepTask, he, hc, advanceTask, hp,
      listen, hn, if_true]
    rfl
  refine ⟨_, hstep, rfl, ?_, ?_⟩
  · simp [World.takePending, World.note, World.moveTask, updateTask, ht]
  · simp [World.takePending, World.note, World.moveTask, updateTask]

/-- What has become of a task that listened and had been woken: it is still to serve the queue, or
that is what it did first, or it was stopped. -/
inductive Rouses (c : String) (id : Nat) (base : List Mark) (v : World) : Prop where
  | waits {ms : List Mark} {t : Task} {s : Nat} (trace : v.trace = ms ++ base)
      (quiet : ∀ m ∈ ms, m.owner? ≠ some id) (task : v.tasks[id]? = some t)
      (cluster : t.cluster = c) (place : t.position = .listening s) (woken : t.cancelled = false → t.notified = true)
  | served {later earlier : List Mark} {queue : List Listener}
      (trace : v.trace = later ++ .took id c queue :: (earlier ++ base))
      (quiet : ∀ m ∈ earlier, m.owner? ≠ some id)
  | stopped {ms : List Mark} {t : Task} (trace : v.trace = ms ++ base)
      (unread : ∀ r, .read id r ∉ ms) (task : v.tasks[id]? = some t) (ended : t.isEnded = true)

namespace Rouses

variable {c : String} {base : List Mark} {m : Move}

/-- Others go on. -/
theorem elsewhere (h : Rouses c id base w) (he : Elsewhere id w w') (hf : Faithful id w w') :
    Rouses c id base w' := by
  obtain ⟨new, hnew, hothers⟩ := he.trace
  cases h with
  | @waits ms t s htrace hquiet ht hcl hp hn =>
    obtain ⟨t', ht', hc', hp', hcan⟩ := he.task t ht
    refine .waits (by rw [hnew, htrace, List.append_assoc]) ?_ ht' (hc'.trans hcl) (hp'.trans hp)
      fun hc => ?_
    · intro m hm
      exact (List.mem_append.1 hm).elim (hothers m) (hquiet m)
    · obtain ⟨u, hu, -, hcu, -, hnotified⟩ := hf t' ht' hc (by rw [hp', hp]; rfl)
      cases ht.symm.trans hu
      exact hnotified (hn hcu)
  | @served later earlier queue htrace hquiet =>
    exact .served (by rw [hnew, htrace, List.append_assoc]) hquiet
  | @stopped ms t htrace hunread ht hend =>
    obtain ⟨t', ht', -, hp', -⟩ := he.task t ht
    refine .stopped (by rw [hnew, htrace, List.append_assoc]) (fun r hr => ?_) ht' ?_
    · rcases List.mem_append.1 hr with hr | hr
      · exact hothers _ hr rfl
      · exact hunread r hr
    · rw [Task.isEnded_iff] at hend ⊢
      exact hp'.trans hend

/-- A gate has nothing to do with it. -/
theorem clear (h : Rouses c id base w) : Rouses c id base (w.clear (.task id)) := by
  have found : ∀ {t : Task}, w.tasks[id]? = some t →
      (w.clear (.task id)).tasks[id]? = some { t with position := t.position.clear } := fun ht => by
    simp [World.clear, updateTask, ht]
  cases h with
  | waits htrace hquiet ht hcl hp hn =>
    exact .waits htrace hquiet (found ht) hcl (by rw [hp]; rfl) hn
  | served htrace hquiet => exact .served htrace hquiet
  | stopped htrace hunread ht hend =>
    rw [Task.isEnded_iff] at hend
    exact .stopped htrace hunread (found ht) (by rw [hend]; rfl)

/-- The task goes on itself. -/
theorem step (h : Rouses c id base w) (hm : w.move setup (.step (.task id)) = some w') :
    Rouses c id base w' := by
  cases h with
  | @waits ms t s htrace hquiet ht hcl hp hn =>
    cases hc : t.cancelled with
    | true =>
      have he : t.isEnded = false := Task.isEnded_of_ne (by simp [hp])
      obtain rfl : w.stopTask id t = w' := by
        simpa [World.move, World.step, ht, stepTask, he, hc] using hm
      obtain ⟨new, hnew, hturn, -⟩ := stopTask_turns w id t
      have htrace' : (w.stopTask id t).trace = (.ended id :: new ++ ms) ++ base := by
        rw [hturn.trace, htrace, List.append_assoc]
      have ht' : (w.stopTask id t).tasks[id]? = some { t with position := .ended } := by
        simp [hturn.tasks, ht]
      refine .stopped htrace' (fun r hr => ?_) ht' rfl
      rcases List.mem_append.1 hr with hr | hr
      · rcases hnew with rfl | rfl <;> simp at hr
      · exact hquiet _ hr rfl
    | false =>
      obtain ⟨v, hv, htook, -⟩ := @step_woken setup w id t s ht hc hp (hn hc)
      cases hm.symm.trans hv
      subst hcl
      have htrace' : w'.trace = [] ++ .took id t.cluster (w.listeners.pending t.cluster) ::
          (ms ++ base) := by
        rw [htook, htrace]
        rfl
      exact .served htrace' hquiet
  | @served later earlier queue htrace hquiet =>
    obtain ⟨new, hnew, -⟩ := move_author hm
    exact .served (by rw [hnew, htrace, List.append_assoc]) hquiet
  | stopped htrace hunread ht hend =>
    simp [World.move, World.step, ht, stepTask, hend] at hm

theorem move (h : Rouses c id base w) (hm : w.move setup m = some w') : Rouses c id base w' := by
  by_cases hne : m = .step (.task id)
  · subst hne
    exact h.step hm
  · rcases Elsewhere.move hm hne with rfl | he
    · cases hm
      exact h.clear
    · exact h.elsewhere he (.move hm hne)

/-- Nothing was read before the queue was taken. -/
theorem queue_taken {newer ms : List Mark} {r : Reading} (h : Rouses c id base v)
    (htrace : v.trace = newer ++ .read id r :: (ms ++ base)) :
    ∃ since queue earlier, ms = since ++ .took id c queue :: earlier ∧
      ∀ m ∈ earlier, m.owner? ≠ some id := by
  have cancelled : ∀ {xs : List Mark}, v.trace = xs ++ base → newer ++ .read id r :: ms = xs := by
    intro xs hxs
    rw [htrace, ← List.cons_append, ← List.append_assoc] at hxs
    exact List.append_cancel_right hxs
  cases h with
  | waits hv hquiet =>
    exact absurd rfl (hquiet (.read id r) (by simp [← cancelled hv]))
  | stopped hv hunread =>
    exact absurd (by simp [← cancelled hv]) (hunread r)
  | @served later earlier queue hv hquiet =>
    rw [← List.cons_append, ← List.append_assoc] at hv
    rcases List.append_eq_append_iff.1 (cancelled hv) with ⟨a, ha, hrest⟩ | ⟨a, ha, hrest⟩
    · cases a with
      | nil => cases hrest
      | cons x a =>
        rw [List.cons_append, List.cons.injEq] at hrest
        exact ⟨a, queue, earlier, hrest.2, hquiet⟩
    · cases a with
      | nil => cases hrest
      | cons x a =>
        rw [List.cons_append, List.cons.injEq] at hrest
        exact absurd rfl (hquiet (.read id r) (by simp [hrest.2]))

end Rouses

end World

namespace Fleet

variable {setups : Nat → Setup} {f g : Fleet} {i id : Nat} {w v : World} {t : Task}

/-- Whenever a task that was not cancelled listens and somebody is queued for it, it has been woken:
its next step takes the queue as it is, whatever the stream holds; and however others go on before
that, it reads nothing before it has taken the queue, and nothing after that before it has called
all of the queue to synchronise, in order, unless it opens another stream. -/
theorem joiners_wake (hf : Reachable setups f) (hw : f.world? i = some w)
    (ht : w.tasks[id]? = some t) (hc : t.cancelled = false) {s : Nat}
    (hp : t.position = .listening s) (hqueued : w.listeners.pending t.cluster ≠ []) :
    t.notified = true ∧
      (∃ w', w.move (setups i) (.step (.task id)) = some w' ∧
        w'.trace = .took id t.cluster (w.listeners.pending t.cluster) :: w.trace ∧
        w'.tasks[id]? = some { t with
          notified := false, position := .passing s .joined (w.listeners.pending t.cluster) } ∧
        w'.listeners.pending t.cluster = []) ∧
      ∀ g v newer r ms, Reaches setups f g → g.world? i = some v →
        v.trace = newer ++ .read id r :: (ms ++ w.trace) →
        ∃ since queue earlier, ms = since ++ .took id t.cluster queue :: earlier ∧
          (∀ m ∈ earlier, m.owner? ≠ some id) ∧ queue = queued t.cluster (earlier ++ w.trace) ∧
          ((∃ s start, .opened id s start ∈ since) ∨
            visitsTo queue .sync <+: visitsOf id since) := by
  have hstream : t.position.stream?.isSome = true := by rw [hp]; rfl
  have hn : t.notified = true := World.Alert.of_reachable hf hw id t ht hc hstream hqueued
  refine ⟨hn, World.step_woken ht hc hp hn, fun g v newer r ms hr hv htrace => ?_⟩
  have hrouses : World.Rouses t.cluster id w.trace v := by
    refine hr.keeps (P := World.Rouses t.cluster id w.trace) (fun u store h => ?_)
      (fun _ _ _ _ h hm => h.move hm) (fun u hu => ?_) hv
    · exact h.elsewhere (.quiet rfl rfl) (World.Mild.still ⟨rfl, rfl⟩).task
    · cases hw.symm.trans hu
      exact .waits (List.nil_append _).symm (by simp) ht rfl hp fun _ => hn
  obtain ⟨since, queue, earlier, rfl, hquiet⟩ := hrouses.queue_taken htrace
  have hlaws : Laws (setups i) t.cluster id
      (.read id r :: (since ++ .took id t.cluster queue :: (earlier ++ w.trace))) := by
    obtain ⟨t', ht', hcluster, -⟩ := (hr.lasts hw hv).1.task ht
    have h := ((Streamed.of_reachable (hf.reaches hr)).recorded hv).laws id t' ht'
    rw [hcluster, htrace] at h
    simpa [List.append_assoc] using h.suffix (List.suffix_append _ _)
  have hqueue := ((hlaws.2.suffix (List.suffix_append _ _)).1 rfl).2.1
  refine ⟨since, queue, earlier, rfl, hquiet, hqueue, ?_⟩
  by_cases hopened : ∃ s start, Mark.opened id s start ∈ since
  · exact .inl hopened
  · exact .inr (hlaws.queue_called fun s start hm => hopened ⟨s, start, hm⟩).2

/-- A task that was not cancelled listens, and this queue is for it. -/
def attends (w : World) (id : Nat) (queue : List Listener) : Bool :=
  (w.tasks[id]?).any fun t => match t.position with
    | .listening _ => !t.cancelled && w.listeners.pending t.cluster == queue
    | _ => false

theorem listening_of_attends {queue : List Listener} (h : attends w id queue = true) :
    ∃ t s, w.tasks[id]? = some t ∧ t.cancelled = false ∧ t.position = .listening s ∧
      w.listeners.pending t.cluster = queue := by
  obtain ⟨t, ht, h⟩ := (Option.any_eq_true _ _).1 h
  split at h
  · next s hp =>
    simp only [Bool.and_eq_true, Bool.not_eq_true', beq_iff_eq] at h
    exact ⟨t, s, ht, h.1, hp, h.2⟩
  · cases h

/-- A listener that joins a task that listens has woken it, and is queued. -/
theorem joiners_wake_second : ∃ f w t s, Reachable (fun _ => .plain "me@here") f ∧
    f.world? 0 = some w ∧ w.tasks[0]? = some t ∧ t.position = .listening s ∧
    w.listeners.pending t.cluster = [.user "m"] ∧ t.notified = true := by
  obtain ⟨f, w, hf, hw, hattends⟩ := exists_of_run (fun _ => .plain "me@here") .usual 1 0
    ([(0, .ask 0 (.attach "c" "l"))] ++ List.replicate 4 (0, .step (.task 0)) ++
      [(0, .ask 0 (.attach "c" "m"))])
    (fun w => attends w 0 [.user "m"]) rfl (by decide +kernel)
  obtain ⟨t, s, ht, hc, hp, hqueued⟩ := listening_of_attends hattends
  exact ⟨f, w, t, s, hf, hw, ht, hp, hqueued,
    (joiners_wake hf hw ht hc hp (by simp [hqueued])).1⟩

end Fleet

end Muster
