import Muster.Proofs.Grammar
import Muster.Proofs.CacheRefills

/-!
# What a task does to the cache of its cluster

The steps of a task, as they look to the updaters that it calls: the stream is opened or left, the
queue is taken, the hash is read and the cache replaced by it, a message is taken and applied to the
cache (`Stride`). Every other step leaves the task where it was, as far as an updater is concerned.
-/
namespace Muster

/-- The listeners of the pass are called to synchronise. -/
def Pass.syncs : Pass → Bool
  | .delivery _ => false
  | _ => true

/-- The message of the pass was read, and an updater has still to apply it. -/
def Pass.lag (pass : Pass) (rest : List Listener) : Nat :=
  match pass with
  | .beforeDelivery _ audience => if audience.any Listener.isUpdater then 1 else 0
  | .delivery _ => if rest.any Listener.isUpdater then 1 else 0
  | _ => 0

/-- How many calls of updaters with the message of a pass are still to be made. -/
def Pass.tally (pass : Pass) (rest : List Listener) : Nat :=
  match pass with
  | .beforeDelivery _ audience => audience.countP Listener.isUpdater
  | .delivery _ => rest.countP Listener.isUpdater
  | _ => 0

theorem Pass.lag_eq (pass : Pass) (rest : List Listener) :
    pass.lag rest = min 1 (pass.tally rest) := by
  have counted : ∀ ls : List Listener,
      (if ls.any Listener.isUpdater then 1 else 0) = min 1 (ls.countP Listener.isUpdater) := by
    intro ls
    split
    · next h =>
      have hpos := List.countP_pos_iff.2 (List.any_eq_true.1 h)
      omega
    · next h =>
      have hzero : ls.countP Listener.isUpdater = 0 :=
        List.countP_eq_zero.2 fun l hl hup => h (List.any_eq_true.2 ⟨l, hl, hup⟩)
      omega
  cases pass with
  | beforeDelivery m audience => exact counted audience
  | delivery m => exact counted rest
  | _ => rfl

def Pass.message? : Pass → Option String
  | .beforeDelivery m _ | .delivery m => some m
  | _ => none

namespace Position

/-- An updater is going to read the hash. -/
def owes : Position → Bool
  | passing _ pass rest => pass.syncs && rest.any Listener.isUpdater
  | calling _ pass _ (.reading _) _ => pass.syncs
  | calling _ pass _ _ rest => pass.syncs && rest.any Listener.isUpdater
  | _ => false

/-- How many messages were read that are not applied yet. -/
def lag : Position → Nat
  | passing _ pass rest | calling _ pass _ _ rest => pass.lag rest
  | _ => 0

/-- How many calls of updaters with the current message are still to be made. -/
def tally : Position → Nat
  | passing _ pass rest | calling _ pass _ _ rest => pass.tally rest
  | _ => 0

theorem lag_eq (p : Position) : p.lag = min 1 p.tally := by
  cases p with
  | passing _ pass rest | calling _ pass _ _ rest => exact pass.lag_eq rest
  | _ => rfl

/-- The message that is being delivered. -/
def message? : Position → Option String
  | passing _ pass _ | calling _ pass _ _ _ => pass.message?
  | _ => none

/-- The reply that an updater is going to fill the cache with. -/
def reply? : Position → Option (List (String × String))
  | calling _ _ _ (.replied fields _) _ => some fields
  | _ => none

/-- The members of the cluster, as soon as the reply on its way is there. -/
def view (p : Position) (members : List Address) : List Address :=
  match p.reply? with
  | some fields => (addressesOf fields).eraseDups
  | none => members

/-- The action that the listener being called begins next. -/
def action? : Position → Option Action
  | calling _ _ _ (.acting _ ((_, a) :: _) _) _ => some a
  | _ => none

/-- Updaters read the hash to synchronise, and only listeners of users act. -/
def IsProper : Position → Prop
  | calling _ pass l (.reading _) _ | calling _ pass l (.replied _ _) _ =>
    l.isUpdater = true ∧ pass.syncs = true
  | calling _ _ l _ _ => l.isUpdater = false
  | _ => True

theorem isProper_of_stream? {p : Position} (h : p.stream? = none) : p.IsProper := by
  cases p <;> trivial

theorem isProper_clear {p : Position} : p.clear.IsProper ↔ p.IsProper := by
  unfold Position.clear
  split <;> exact Iff.rfl

/-- Two positions that an updater cannot tell apart. -/
structure Alike (p p' : Position) : Prop where
  stream : p'.stream? = p.stream?
  owes : p'.owes = p.owes
  tally : p'.tally = p.tally
  reply : p'.reply? = p.reply?
  message : ∀ m, p'.message? = some m → p.message? = some m
  proper : p.IsProper → p'.IsProper

theorem message?_clear (p : Position) : p.clear.message? = p.message? := by
  unfold Position.clear
  split <;> rfl

namespace Alike

theorem refl (p : Position) : Alike p p := ⟨rfl, rfl, rfl, rfl, fun _ h => h, fun h => h⟩

theorem clear (p : Position) : Alike p p.clear := by
  unfold Position.clear
  split <;> exact ⟨rfl, rfl, rfl, rfl, fun _ h => h, fun h => h⟩

theorem of_clear {p p' : Position} (h : p'.clear = p.clear) : Alike p p' := by
  have hp := clear p
  have hp' := clear p'
  rw [h] at hp'
  refine ⟨hp'.stream.symm.trans hp.stream, hp'.owes.symm.trans hp.owes,
    hp'.tally.symm.trans hp.tally, hp'.reply.symm.trans hp.reply, fun m hm => hp.message m ?_,
    fun hproper => ?_⟩
  · rw [← h, message?_clear]
    exact hm
  · rw [← isProper_clear, h]
    exact hp.proper hproper

theorem lag {p p' : Position} (h : Alike p p') : p'.lag = p.lag := by
  rw [Position.lag_eq, Position.lag_eq, h.tally]

theorem view {p p' : Position} (h : Alike p p') (members : List Address) :
    p'.view members = p.view members := by
  simp only [Position.view, h.reply]

end Alike

end Position

namespace World

variable {setup : Setup} {id : Nat} {t : Task} {w w' : World}

/-- What a task leaves alone when it does not call an updater. -/
structure Apart (id : Nat) (w w' : World) : Prop where
  calls : w'.calls = w.calls
  listeners : w'.listeners = w.listeners
  leads : ∀ {c j}, w'.Leads c j → w.Leads c j
  caches : w'.caches = w.caches
  others : ∀ j, id ≠ j → w'.tasks[j]? = w.tasks[j]?
  still : w.store.Still w'.store
  applied : w'.counters.eventsApplied = w.counters.eventsApplied
  received : w.counters.eventsReceived ≤ w'.counters.eventsReceived
  silent : Silent w w'

/-- The task stands at a position. -/
def At (id : Nat) (w : World) (p : Position) : Prop := ∃ t, w.tasks[id]? = some t ∧ t.position = p

theorem At.position_eq {p : Position} (h : At id w p) (ht : w.tasks[id]? = some t) :
    t.position = p := by
  obtain ⟨u, hu, hp⟩ := h
  cases ht.symm.trans hu
  exact hp

theorem At.moveTask {p : Position} (h : At id w p) (p' : Position) :
    At id (w.moveTask id p') p' := by
  obtain ⟨t, ht, -⟩ := h
  exact ⟨{ t with position := p' }, by simp [World.moveTask, updateTask, ht], rfl⟩

namespace Apart

theorem quiet (hb : Beside w w') (hl : w'.listeners = w.listeners) (ht : w'.tasks = w.tasks)
    (hs : w'.slots = w.slots) (hst : w.store.Still w'.store) : Apart id w w' :=
  ⟨hb.calls, hl, fun h => h.same ht hs, hb.caches, fun j _ => by rw [ht], hst,
    congrArg (·.1.2.1) hb.events, Nat.le_of_eq (congrArg (·.1.1) hb.events).symm, hb.silent⟩

theorem refl (w : World) : Apart id w w := quiet (.refl w) rfl rfl rfl (.refl _)

theorem trans {a b c : World} (h : Apart id a b) (h' : Apart id b c) : Apart id a c :=
  ⟨h'.calls.trans h.calls, h'.listeners.trans h.listeners, fun hl => h.leads (h'.leads hl),
    h'.caches.trans h.caches, fun j hj => (h'.others j hj).trans (h.others j hj),
    h.still.trans h'.still, h'.applied.trans h.applied, Nat.le_trans h.received h'.received,
    h.silent.trans h'.silent⟩

theorem cell (h : Apart id w w') (c : String) : w'.cell c = w.cell c := by
  rw [World.cell, h.caches, World.cell]

theorem note (w : World) {m : Mark} (hm : m.tells = false) : Apart id w (w.note m) :=
  quiet ⟨rfl, rfl, rfl, .note w hm⟩ rfl rfl rfl (.refl _)

theorem noted (h : Apart id w w') (m : Mark) : Apart id (w.note m) (w'.note m) :=
  ⟨h.calls, h.listeners, h.leads, h.caches, h.others, h.still, h.applied, h.received,
    h.silent.noted m⟩

theorem count (w : World) {k : Counter} (hk : k ≠ .eventsApplied) : Apart id w (w.count k) := by
  refine ⟨rfl, rfl, fun h => h, rfl, fun _ _ => rfl, .refl _, ?_, ?_, .same rfl⟩
  · cases k <;> first | rfl | exact absurd rfl hk
  · cases k <;> first | exact Nat.le_refl _ | exact Nat.le_succ _

theorem stored (w : World) {store : Memory} (h : w.store.Still store) :
    Apart id w { w with store } := quiet (.same rfl rfl rfl rfl) rfl rfl rfl h

theorem updateTask (w : World) (f : Task → Task) (hc : ∀ u, (f u).cluster = u.cluster)
    (hg : ∀ u, (f u).generation = u.generation) : Apart id w (w.updateTask id f) :=
  ⟨rfl, rfl, fun h => h.of_updateTask hc hg, rfl, fun j hj => by simp [World.updateTask, hj],
    .refl _, rfl, Nat.le_refl _, .same rfl⟩

theorem moveTask (w : World) (p : Position) : Apart id w (w.moveTask id p) :=
  updateTask w _ (fun _ => rfl) fun _ => rfl

theorem publish (w : World) (t : Task) (s : Status) : Apart id w (w.publish id t s) := by
  have hlead : ∀ {c j}, (w.publish id t s).Leads c j → w.Leads c j := fun h => h.of_publish
  unfold World.publish at hlead ⊢
  split
  · exact refl w
  · next hs =>
    split
    · next hg =>
      rw [hs] at hlead
      simp only [hg, if_true] at hlead
      exact ⟨rfl, rfl, hlead, rfl, fun _ _ => rfl, .refl _, rfl, Nat.le_refl _, .note _ rfl⟩
    · exact refl w

theorem closeStream (w : World) (t : Task) : Apart id w (w.closeStream t) := by
  unfold World.closeStream
  split
  · exact stored w (.close _ _ _)
  · exact refl w

/-- A command that sends nothing and changes no hash. -/
theorem perform {α : Type} (w : World) (who : Actor) (call : StoreCall)
    (command : Memory → Except Fault (α × Memory))
    (h : ∀ a m, command w.store = .ok (a, m) → w.store.Still m) :
    Apart id w (w.perform who call command).2 := by
  have hbeside := Beside.perform w who call command
  rcases perform_cases w who call command with ⟨f, faults, hp⟩ | ⟨a, store, faults, hc, hp⟩
  · rw [hp] at hbeside ⊢
    exact quiet hbeside rfl rfl rfl (.refl _)
  · rw [hp] at hbeside ⊢
    exact quiet hbeside rfl rfl rfl (h a store hc)

theorem openStream (w : World) (who : Actor) (key : String) :
    Apart id w (w.openStream who key).2 :=
  perform w who _ _ fun _ _ h => .subscribe h

theorem readFields (w : World) (who : Actor) (key : String) :
    Apart id w (w.readFields who key).2 :=
  perform w who _ _ fun a m h => by
    obtain ⟨_, -, hpair⟩ := ok_of_map h
    cases hpair
    exact .refl _

end Apart

/-! ## The end of an attempt -/

/-- The task does no more than give up its stream. -/
def Leaves (id : Nat) (w w' : World) : Prop := Apart id w w' ∧ w'.Streamless id

theorem Apart.leaves {v : World} (h : Apart id w v) (h' : Leaves id v w') : Leaves id w w' :=
  ⟨h.trans h'.1, h'.2⟩

theorem finishTask_leaves {p : Position} (h : At id w p) (s : Status) :
    Leaves id w (w.finishTask id t s) := by
  refine ⟨((Apart.publish w t s).trans (.moveTask _ .ended)).trans (.note _ rfl), ?_⟩
  have hpub : At id (w.publish id t s) p := by
    obtain ⟨u, hu, hp⟩ := h
    exact ⟨u, by rw [(publish_others w id t s).1]; exact hu, hp⟩
  obtain ⟨u, hu, hp⟩ := hpub.moveTask .ended
  exact ⟨u, hu, by rw [hp]; rfl⟩

theorem failTask_leaves {p : Position} (h : At id w p) : Leaves id w (w.failTask id t) := by
  have hat : At id (w.count .subscriptionFailures) p := h
  exact (Apart.count w (by simp)).leaves (finishTask_leaves hat .failed)

theorem dropAttempt_leaves {p : Position} (h : At id w p) :
    Leaves id w (w.dropAttempt setup id t) := by
  obtain ⟨u, hu, hp⟩ := h
  rcases dropAttempt_cases setup w id t with ⟨-, heq⟩ | ⟨-, heq⟩ <;> rw [heq]
  · have hfail : Apart id w (w.updateTask id fun u => { u with failures := t.failures + 1 }) :=
      .updateTask w _ (fun _ => rfl) fun _ => rfl
    have hat : At id (w.updateTask id fun u => { u with failures := t.failures + 1 }) p :=
      ⟨{ u with failures := t.failures + 1 }, by simp [updateTask, hu], hp⟩
    exact hfail.leaves (failTask_leaves hat)
  · have hdraw : Apart id w { w with draws := w.draws + 1 } :=
      .quiet (.same rfl rfl rfl rfl) rfl rfl rfl (.refl _)
    have hwait := hdraw.trans (.updateTask _ (fun u => { u with
      failures := t.failures + 1, backoff := t.backoff.next.2
      position := .waiting (w.clock + setup.delay w.draws t.backoff.next.1) })
      (fun _ => rfl) fun _ => rfl)
    refine ⟨hwait.trans (.publish _ t .reconnecting), ?_⟩
    rw [Streamless, (publish_others _ id t .reconnecting).1]
    exact ⟨{ u with
      failures := t.failures + 1, backoff := t.backoff.next.2
      position := .waiting (w.clock + setup.delay w.draws t.backoff.next.1) },
      by simp [updateTask, hu], rfl⟩

theorem endAttempt_leaves {p : Position} (h : At id w p) (f : Fault) :
    Leaves id w (w.endAttempt setup id t f) := by
  have hclose : Apart id w (w.closeStream t) := .closeStream w t
  have hat : At id (w.closeStream t) p := by
    unfold closeStream
    split <;> exact h
  unfold endAttempt
  dsimp only
  split
  · exact hclose.leaves (failTask_leaves hat)
  · exact hclose.leaves (dropAttempt_leaves hat)

/-- A listener's answer ends the attempt. -/
theorem afterCallback_leaves {p : Position} (h : At id w p) {s : Nat} {pass : Pass} {l : Listener}
    {fault : Option Fault} {rest : List Listener} (hb : pass.hook.isBroken fault = true) :
    Leaves id w (w.afterCallback setup id t s pass l fault rest) := by
  have htells : (Mark.returned id l pass.hook fault).tells = false := by
    cases fault with
    | none => simp [Hook.isBroken] at hb
    | some f => cases hh : pass.hook <;> rfl
  have hnote : Apart id w (w.note (.returned id l pass.hook fault)) := .note w htells
  have hat : At id (w.note (.returned id l pass.hook fault)) p := h
  have counted : ∀ c, At id ((w.note (.returned id l pass.hook fault)).count c) p := fun _ => h
  unfold afterCallback
  dsimp only
  split
  · simp [Hook.isBroken] at hb
  · split
    · exact (hnote.trans (.count _ (by simp))).leaves (endAttempt_leaves (counted _) _)
    · next hf => exact absurd hb hf
  · exact hnote.leaves (endAttempt_leaves hat _)

/-- After a listener's answer the pass goes on. -/
theorem afterCallback_goes {p : Position} (h : At id w p) {s : Nat} {pass : Pass} {l : Listener}
    {fault : Option Fault} {rest : List Listener} (hb : pass.hook.isBroken fault = false) :
    Apart id (w.note (.returned id l pass.hook fault))
        (w.afterCallback setup id t s pass l fault rest) ∧
      (w.afterCallback setup id t s pass l fault rest).store = w.store ∧
      At id (w.afterCallback setup id t s pass l fault rest) (.passing s pass rest) := by
  have hat : At id (w.note (.returned id l pass.hook fault)) p := h
  have counted : ∀ c, At id ((w.note (.returned id l pass.hook fault)).count c) p := fun _ => h
  unfold afterCallback
  dsimp only
  split
  · exact ⟨.moveTask _ _, rfl, hat.moveTask _⟩
  · split
    · next hf => simp [Pass.hook, Hook.isBroken, hf] at hb
    · exact ⟨(Apart.count _ (by simp)).trans (.moveTask _ _), rfl, (counted _).moveTask _⟩
  · next hpass =>
    cases pass with
    | delivery m => exact absurd rfl (hpass m)
    | _ => simp [Pass.hook, Hook.isBroken] at hb

/-! ## Steps -/

/-- A task has taken the queue of a cluster. -/
def drained (w : World) (c : String) : World :=
  { w with listeners := (w.listeners.takePending c).2 }

/-- The steps of a task that calls no listener of a user. -/
inductive Stride (setup : Setup) (id : Nat) (t : Task) (w : World) : World → Prop where
  | away {w' : World} (h : Leaves id w w') (hi : t.position.stage? = none) :
      Stride setup id t w w'
  | alike {w' : World} {p : Position} (h : Apart id w w') (hs : w'.store = w.store)
      (hp : At id w' p) (ha : t.position.Alike p)
      (hi : p.stage?.map Stage.clear = t.position.stage?.map Stage.clear) :
      Stride setup id t w w'
  | opened {w' : World} {s : Nat} {g : Gate} (h : Apart id (w.drained t.cluster) w')
      (hl : t.position = .opening g)
      (hp : At id w' (.passing s .full (w.listeners.of t.cluster))) : Stride setup id t w w'
  | woken {w' : World} {s : Nat} (h : Apart id (w.drained t.cluster) w')
      (hs : w'.store = w.store) (hl : t.position = .listening s)
      (hp : At id w' (.passing s .joined (w.listeners.pending t.cluster))) : Stride setup id t w w'
  | received {w' : World} {s : Nat} {payload m : String}
      (h : Apart id (((w.count .eventsReceived).drained t.cluster).note
        (.dispatched id m (w.listeners.of t.cluster))) w')
      (hl : t.position = .listening s)
      (hs : w.store.next (registryKey t.cluster) s = (.message payload, w'.store))
      (hm : setup.screen payload = .ok m)
      (hp : At id w' (.passing s (.beforeDelivery m (w.listeners.of t.cluster))
        (w.listeners.pending t.cluster))) : Stride setup id t w w'
  | read {w' : World} {s : Nat} {pass : Pass} {l : Listener} {g : Gate} {rest : List Listener}
      (h : Apart id w w') (hs : w'.store = w.store)
      (hl : t.position = .calling s pass l (.reading g) rest)
      (hp : At id w' (.calling s pass l
        (.replied (w.store.hash (registryKey t.cluster)).entries .arriving) rest)) :
      Stride setup id t w w'
  | replaced {w' : World} {s : Nat} {pass : Pass} {l : Listener} {g : Gate}
      {fields : List (String × String)} {rest : List Listener}
      (h : Apart id (w.updateCache t.cluster fun m => m.replace (addressesOf fields)) w')
      (hs : w'.store = w.store) (hl : t.position = .calling s pass l (.replied fields g) rest)
      (hp : At id w' (.passing s pass rest)) : Stride setup id t w w'
  | applied {w' : World} {s : Nat} {m : String} {l : Listener} {rest : List Listener} {e : Event}
      (h : Apart id (((w.updateCache t.cluster fun c => c.apply e).count .eventsApplied).note
        (.returned id l (.event m) none)) w')
      (hs : w'.store = w.store) (hl : t.position = .passing s (.delivery m) (l :: rest))
      (hu : l.isUpdater = true) (he : Event.decode m = .ok e)
      (hp : At id w' (.passing s (.delivery m) rest)) : Stride setup id t w w'

/-- What a step may do to the cluster of its task before it goes on. -/
structure Near (t : Task) (w v : World) : Prop where
  store : v.store = w.store
  calls : v.calls = w.calls
  tasks : v.tasks = w.tasks
  slots : v.slots = w.slots
  of : ∀ c, v.listeners.of c = w.listeners.of c
  pending : ∀ c, t.cluster ≠ c → v.listeners.pending c = w.listeners.pending c
  members : ∀ c, t.cluster ≠ c → (v.caches.entry c).members = (w.caches.entry c).members
  nodup : ∀ c, (w.caches.entry c).members.Nodup → (v.caches.entry c).members.Nodup
  cell : ∀ c, v.cell c = w.cell c

namespace Near

theorem refl (t : Task) (w : World) : Near t w w :=
  ⟨rfl, rfl, rfl, rfl, fun _ => rfl, fun _ _ => rfl, fun _ _ => rfl, fun _ h => h, fun _ => rfl⟩

theorem drained (t : Task) (w : World) : Near t w (w.drained t.cluster) :=
  ⟨rfl, rfl, rfl, rfl, fun _ => rfl, fun c hc => by simp [World.drained, hc], fun _ _ => rfl,
    fun _ h => h, fun _ => rfl⟩

theorem updateCache (t : Task) (w : World) (f : Membership Actor → Membership Actor)
    (hcell : ∀ m, (f m).cell = m.cell) (hnodup : ∀ m, m.members.Nodup → (f m).members.Nodup) :
    Near t w (w.updateCache t.cluster f) := by
  refine ⟨rfl, rfl, rfl, rfl, fun _ => rfl, fun _ _ => rfl, fun c hc => ?_, fun c h => ?_,
    fun c => ?_⟩
  · simp [World.updateCache, Caches.entry_update, hc]
  · simp only [World.updateCache, Caches.entry_update]
    split
    · next heq => exact hnodup _ (heq ▸ h)
    · exact h
  · simp only [World.cell, World.updateCache, Caches.entry_update]
    split
    · next heq => rw [hcell, heq]
    · rfl

/-- Counting and recording come on top. -/
theorem noted {v : World} (h : Near t w v) (k : Counter) (m : Mark) :
    Near t w ((v.count k).note m) :=
  ⟨h.store, h.calls, h.tasks, h.slots, h.of, h.pending, h.members, h.nodup, h.cell⟩

end Near

namespace Stride

theorem near (h : Stride setup id t w w') : ∃ v, Near t w v ∧ Apart id v w' := by
  cases h with
  | away h => exact ⟨w, .refl t w, h.1⟩
  | alike h => exact ⟨w, .refl t w, h⟩
  | opened h => exact ⟨_, .drained t w, h⟩
  | woken h => exact ⟨_, .drained t w, h⟩
  | received h => exact ⟨_, (Near.drained t w).noted .eventsReceived _, h⟩
  | read h => exact ⟨w, .refl t w, h⟩
  | @replaced s pass l g fields rest h =>
    exact ⟨_, .updateCache t w (fun m => m.replace (addressesOf fields)) (fun _ => rfl)
      fun m _ => Membership.nodup_replace m _, h⟩
  | @applied s m l rest e h =>
    exact ⟨_, (Near.updateCache t w (fun m => m.apply e) (fun _ => rfl)
      fun m hm => Membership.nodup_apply hm e).noted .eventsApplied _, h⟩

theorem still (h : Stride setup id t w w') : w.store.Still w'.store := by
  obtain ⟨v, hv, ha⟩ := h.near
  exact hv.store ▸ ha.still

theorem leads (h : Stride setup id t w w') {c : String} {j : Nat} (hl : w'.Leads c j) :
    w.Leads c j := by
  obtain ⟨v, hv, ha⟩ := h.near
  exact (ha.leads hl).same hv.tasks hv.slots

theorem served (h : Stride setup id t w w') (c : String) : w'.Served c ↔ w.Served c := by
  obtain ⟨v, hv, ha⟩ := h.near
  rw [Served, ha.listeners, hv.of, Served]

/-- Only the queue of its own cluster is taken. -/
theorem owed (h : Stride setup id t w w') {c : String} (hc : t.cluster ≠ c) (ho : w.Owed c) :
    w'.Owed c := by
  obtain ⟨v, hv, ha⟩ := h.near
  rwa [Owed, ha.listeners, hv.pending c hc]

theorem members (h : Stride setup id t w w') {c : String} (hc : t.cluster ≠ c) :
    (w'.caches.entry c).members = (w.caches.entry c).members := by
  obtain ⟨v, hv, ha⟩ := h.near
  rw [ha.caches, hv.members c hc]

theorem nodup (h : Stride setup id t w w') {c : String}
    (hc : (w.caches.entry c).members.Nodup) : (w'.caches.entry c).members.Nodup := by
  obtain ⟨v, hv, ha⟩ := h.near
  rw [ha.caches]
  exact hv.nodup c hc

theorem cell (h : Stride setup id t w w') (c : String) : w'.cell c = w.cell c := by
  obtain ⟨v, hv, ha⟩ := h.near
  exact (ha.cell c).trans (hv.cell c)

/-- Where the task stands then, it stands properly. -/
theorem proper (h : Stride setup id t w w') (ht : t.position.IsProper) :
    ∃ t', w'.tasks[id]? = some t' ∧ t'.position.IsProper := by
  have stands : ∀ {p : Position}, At id w' p → p.IsProper →
      ∃ t', w'.tasks[id]? = some t' ∧ t'.position.IsProper := by
    rintro p ⟨t', ht', hp⟩ h
    exact ⟨t', ht', hp ▸ h⟩
  cases h with
  | away h =>
    obtain ⟨-, t', ht', hstream⟩ := h
    exact ⟨t', ht', Position.isProper_of_stream? hstream⟩
  | alike _ _ hp ha => exact stands hp (ha.proper ht)
  | opened _ _ hp => exact stands hp trivial
  | woken _ _ _ hp => exact stands hp trivial
  | received _ _ _ _ hp => exact stands hp trivial
  | read _ _ hl hp =>
    rw [hl] at ht
    exact stands hp ht
  | replaced _ _ _ hp => exact stands hp trivial
  | applied _ _ _ _ _ hp => exact stands hp trivial

end Stride

/-- An updater that is called with a message applies it, unless the task gives up. -/
theorem call_updater {s n : Nat} {k msg : String} {rest : List Listener}
    (ht : w.tasks[id]? = some t) :
    Leaves id w (w.call setup id t s (.delivery msg) (.updater k n) rest) ∨
    ∃ e, Event.decode msg = .ok e ∧
      Apart id (((w.updateCache t.cluster fun m => m.apply e).count .eventsApplied).note
        (.returned id (.updater k n) (.event msg) none))
        (w.call setup id t s (.delivery msg) (.updater k n) rest) ∧
      (w.call setup id t s (.delivery msg) (.updater k n) rest).store = w.store ∧
      At id (w.call setup id t s (.delivery msg) (.updater k n) rest)
        (.passing s (.delivery msg) rest) := by
  have hat : At id (w.note (.called id (.updater k n) (.event msg))) t.position := ⟨t, ht, rfl⟩
  have hnote : Apart id w (w.note (.called id (.updater k n) (.event msg))) := .note w rfl
  unfold call applyEvent
  dsimp only [Pass.hook]
  split
  · next hdecode =>
    exact .inl (hnote.leaves (afterCallback_leaves hat (Event.isFatal_of_decode hdecode)))
  · next e hdecode =>
    have hmid : At id (((w.note (.called id (.updater k n) (.event msg))).updateCache t.cluster
      fun m => m.apply e).count .eventsApplied) t.position := ⟨t, ht, rfl⟩
    obtain ⟨hapart, hstore, hgoes⟩ := @afterCallback_goes setup id t _ _ hmid s (.delivery msg)
      (.updater k n) none rest rfl
    have hsilent : Silent w (w.note (.called id (.updater k n) (.event msg))) := .note w rfl
    have hquiet : Apart id ((w.updateCache t.cluster fun m => m.apply e).count .eventsApplied)
        (((w.note (.called id (.updater k n) (.event msg))).updateCache t.cluster
          fun m => m.apply e).count .eventsApplied) :=
      .quiet ⟨rfl, rfl, rfl, hsilent⟩ rfl rfl rfl (.refl _)
    exact .inr ⟨e, hdecode, (hquiet.noted _).trans hapart, hstore, hgoes⟩

theorem call_stride {s : Nat} {pass : Pass} {l : Listener} {rest : List Listener}
    (ht : w.tasks[id]? = some t) (hp : t.position = .passing s pass (l :: rest)) :
    Stride setup id t w (w.call setup id t s pass l rest) := by
  have hat : At id (w.note (.called id l pass.hook)) t.position := ⟨t, ht, rfl⟩
  have hnote : Apart id w (w.note (.called id l pass.hook)) := .note w rfl
  have hnone : t.position.stage? = none := by rw [hp]; rfl
  cases l with
  | user name =>
    have hvisit : ∀ (v : World) (visits : Table (String × Bool) Nat), Apart id v { v with visits } :=
      fun v _ => .quiet (.same rfl rfl rfl rfl) rfl rfl rfl (.refl _)
    refine .alike ((hnote.trans (hvisit _ _)).trans (.moveTask _ _)) rfl (At.moveTask hat _) ?_
      (by rw [hnone]; rfl)
    rw [hp]
    exact ⟨rfl, by simp [Position.owes, Listener.isUpdater], by
      cases pass <;> simp [Position.tally, Pass.tally, Listener.isUpdater], rfl, fun _ h => h,
      fun _ => rfl⟩
  | updater c n =>
    have synchronised : pass.hook = .sync → pass.syncs = true → pass.tally (.updater c n :: rest) =
        pass.tally rest → Stride setup id t w (w.call setup id t s pass (.updater c n) rest) := by
      intro hhook hsync htally
      unfold call
      simp only [hhook] at hat hnote ⊢
      refine .alike (hnote.trans (.moveTask _ _)) rfl (At.moveTask hat _) ?_ (by rw [hnone]; rfl)
      rw [hp]
      exact ⟨rfl, by simp [Position.owes, Listener.isUpdater, hsync], htally.symm, rfl, fun _ h => h,
        fun _ => ⟨rfl, hsync⟩⟩
    cases pass with
    | delivery m =>
      rcases call_updater ht with hl | ⟨e, hdecode, hapart, hstore, hgoes⟩
      · exact .away hl hnone
      · exact .applied hapart hstore hp rfl hdecode hgoes
    | _ => exact synchronised rfl rfl rfl

theorem finishPass_stride {s : Nat} {pass : Pass} (ht : w.tasks[id]? = some t)
    (hp : t.position = .passing s pass []) :
    Stride setup id t w (w.finishPass id t s pass) := by
  have hat : At id w t.position := ⟨t, ht, rfl⟩
  have hnone : t.position.stage? = none := by rw [hp]; rfl
  cases pass with
  | full =>
    have hmove : At id (w.finishPass id t s .full) (.listening s) := by
      refine ⟨{ t with
        failures := 0, backoff := t.backoff.reset, position := .listening s }, ?_, rfl⟩
      simp [finishPass, updateTask, (publish_others w id t .active).1, ht]
    have happart : Apart id w (w.finishPass id t s .full) :=
      (Apart.publish w t .active).trans (.updateTask _ _ (fun _ => rfl) fun _ => rfl)
    refine .alike happart (publish_store w id t .active) hmove ?_ (by rw [hnone]; rfl)
    rw [hp]
    exact ⟨rfl, rfl, rfl, rfl, fun _ h => (by cases h), fun _ => trivial⟩
  | beforeDelivery m audience =>
    refine .alike (.moveTask w _) rfl (hat.moveTask _) ?_ (by rw [hnone]; rfl)
    rw [hp]
    exact ⟨rfl, rfl, rfl, rfl, fun _ h => h, fun _ => trivial⟩
  | _ =>
    refine .alike (.moveTask w _) rfl (hat.moveTask _) ?_ (by rw [hnone]; rfl)
    rw [hp]
    exact ⟨rfl, rfl, rfl, rfl, fun _ h => (by cases h), fun _ => trivial⟩

theorem Apart.drain {v : World} (h : Apart id w v) (c : String) :
    Apart id (w.drained c) (v.takePending id c).2 :=
  ⟨h.calls, by simp [World.takePending, World.note, drained, h.listeners],
    fun hl => h.leads (hl.same rfl rfl), h.caches, h.others, h.still, h.applied, h.received,
    h.silent.trans (.note v rfl)⟩

/-- A payload that is read is to be delivered to those who are registered then, unless the task
gives up. -/
theorem receive_cases {v : World} {q : Position} {s : Nat} (hv : At id v q) (payload : String) :
    Leaves id v (v.receive setup id t s payload) ∨
    ∃ m, setup.screen payload = .ok m ∧
      Apart id (((v.count .eventsReceived).takePending id t.cluster).2.note
        (.dispatched id m (v.listeners.of t.cluster))) (v.receive setup id t s payload) ∧
      (v.receive setup id t s payload).store = v.store ∧
      At id (v.receive setup id t s payload) (.passing s
        (.beforeDelivery m (v.listeners.of t.cluster)) (v.listeners.pending t.cluster)) := by
  unfold receive
  split
  · exact .inl (endAttempt_leaves hv _)
  · next m hm =>
    dsimp only
    split
    · have hmid : At id ((v.count .eventsReceived).count .protocolFaults) q := hv
      exact .inl (((Apart.count v (by simp)).trans (.count _ (by simp))).leaves
        (endAttempt_leaves hmid _))
    · have hmid : At id (((v.count .eventsReceived).takePending id t.cluster).2.note
        (.dispatched id m (v.listeners.of t.cluster))) q := hv
      exact .inr ⟨m, hm, .moveTask _ _, rfl, hmid.moveTask _⟩

theorem receive_stride {v : World} {s : Nat} {payload : String} (hp : t.position = .listening s)
    (h : Apart id w v) (hv : v.tasks[id]? = some t)
    (hs : w.store.next (registryKey t.cluster) s = (.message payload, v.store)) :
    Stride setup id t w (v.receive setup id t s payload) := by
  rcases receive_cases (t := t) ⟨t, hv, rfl⟩ payload with hl | ⟨m, hm, ha, hstore, hgoes⟩
  · exact .away (h.leaves hl) (by rw [hp]; rfl)
  · have hcounted : Apart id (w.count .eventsReceived) (v.count .eventsReceived) :=
      ⟨h.calls, h.listeners, h.leads, h.caches, h.others, h.still, h.applied,
        Nat.succ_le_succ h.received, h.silent⟩
    have hdrain : Apart id ((w.count .eventsReceived).drained t.cluster)
        ((v.count .eventsReceived).takePending id t.cluster).2 := hcounted.drain t.cluster
    rw [h.listeners] at ha hgoes
    exact .received ((hdrain.noted _).trans ha) hp (hstore.symm ▸ hs) hm hgoes

/-! ## Whoever acts -/

/-- The outcome of a call is recorded, for itself or for the listener that made it. -/
structure Settles (who : Actor) (v w' : World) (after : Option Intent) : Prop where
  store : w'.store = v.store
  listeners : w'.listeners = v.listeners
  caches : w'.caches = v.caches
  counters : w'.counters = v.counters
  silent : Silent v w'
  leads : ∀ {c id}, w'.Leads c id → v.Leads c id
  mine : w'.intent? who = after
  others : ∀ who', who ≠ who' → w'.intent? who' = v.intent? who'
  tasks : ∀ (id : Nat) (t' : Task), w'.tasks[id]? = some t' →
    ∃ t : Task, v.tasks[id]? = some t ∧ t.position.Alike t'.position

theorem settleCall_settles (v : World) (id : Nat) (p : Progress) :
    Settles (.call id) v (v.settleCall id p) p.intent? := by
  have others : ∀ (calls : Table Nat Stage) (trace : List Mark),
      (∀ j, id ≠ j → calls.get? j = v.calls.get? j) → ∀ who', Actor.call id ≠ who' →
      ({ v with calls, trace } : World).intent? who' = v.intent? who' := by
    intro calls trace h who' hne
    cases who' with
    | task j => rfl
    | call j => simp only [intent?, h j fun hj => hne (hj ▸ rfl)]
  cases p with
  | finished a =>
    exact ⟨rfl, rfl, rfl, rfl, .note v rfl, fun h => h.same rfl rfl,
      by simp [settleCall, note, intent?, Progress.intent?],
      others _ _ fun j hj => by simp [hj], fun _ t ht => ⟨t, ht, .refl _⟩⟩
  | paused stage =>
    exact ⟨rfl, rfl, rfl, rfl, .same rfl, fun h => h.same rfl rfl,
      by simp [settleCall, intent?, Progress.intent?],
      others _ _ fun j hj => by simp [hj], fun _ t ht => ⟨t, ht, .refl _⟩⟩

theorem settleAction_settles {v : World} {s : Nat} {pass : Pass} {l : Listener}
    {rest : List Listener} {name label : String} {more : List (String × Action)}
    {fault : Option Fault} (hv : v.tasks[id]? = some t)
    (ha : t.position.Alike (.calling s pass l (.acting name more fault) rest)) (p : Progress) :
    Settles (.task id) v (v.settleAction id s pass l rest name label more fault p) p.intent? := by
  have moved : ∀ {u : World} (p : Position), u.tasks = v.tasks → t.position.Alike p →
      (u.moveTask id p).intent? (.task id) = p.intent? ∧
      (∀ who', Actor.task id ≠ who' → u.calls = v.calls →
        (u.moveTask id p).intent? who' = v.intent? who') ∧
      ∀ (j : Nat) (t' : Task), (u.moveTask id p).tasks[j]? = some t' →
        ∃ t : Task, v.tasks[j]? = some t ∧ t.position.Alike t'.position := by
    intro u p hu halike
    refine ⟨?_, fun who' hne hcalls => ?_, fun j t' ht' => ?_⟩
    · simp [intent?, World.moveTask, updateTask, hu, hv]
    · cases who' with
      | call j => simp only [intent?, World.moveTask, updateTask, hcalls]
      | task j =>
        have hj : id ≠ j := fun hj => hne (hj ▸ rfl)
        simp [intent?, World.moveTask, updateTask, hu, hj]
    · by_cases hj : id = j
      · subst hj
        simp only [World.moveTask, updateTask, hu, hv, List.getElem?_modify, if_pos, Option.map_some,
          Option.map_eq_map, Option.some.injEq] at ht'
        exact ⟨t, hv, ht' ▸ halike⟩
      · simp only [World.moveTask, updateTask, hu, List.getElem?_modify, hj] at ht'
        exact ⟨t', by simpa using ht', .refl _⟩
  have led : ∀ {u : World} (p : Position), u.tasks = v.tasks → u.slots = v.slots →
      ∀ {c j}, (u.moveTask id p).Leads c j → v.Leads c j := by
    intro u p ht hs c j h
    have hu : u.Leads c j := Leads.of_updateTask h (fun _ => rfl) fun _ => rfl
    exact hu.same ht hs
  cases p with
  | finished a =>
    obtain ⟨hmine, hothers, htasks⟩ := @moved (v.note (.did name label a)) _ rfl ha
    exact ⟨rfl, rfl, rfl, rfl, .note v rfl, led _ rfl rfl, hmine,
      fun who' hne => hothers who' hne rfl, htasks⟩
  | paused stage =>
    obtain ⟨hmine, hothers, htasks⟩ :=
      @moved v (.calling s pass l (.awaiting name label stage more fault) rest) rfl
        ⟨ha.stream, ha.owes, ha.tally, ha.reply, ha.message, ha.proper⟩
    exact ⟨rfl, rfl, rfl, rfl, .same rfl, led _ rfl rfl, hmine,
      fun who' hne => hothers who' hne rfl, htasks⟩

section
variable {loose loose' : Prop} {who : Actor} {v : World} {before after : Option Intent}

theorem Deed.edits (d : Deed setup loose who w before v after) : Edits setup w v := by
  cases d with
  | light h => exact h.edits
  | wrote h => exact h.edits
  | announced h => exact h.edits
  | refilled => exact takeSnapshot_edits w _ _
  | started => exact .aside (awaitStart_aside w _)

theorem Deed.mono (d : Deed setup loose who w before v after) (h : loose → loose') :
    Deed setup loose' who w before v after := by
  cases d with
  | light hl hs hb hc ha => exact .light hl (hs.imp_left h) hb hc ha
  | wrote hl hb hc hs => exact .wrote hl hb hc hs
  | announced hl hb hc hs => exact .announced hl hb hc hs
  | refilled hb => exact .refilled hb
  | started hb => exact .started hb

end

/-- A step of a task: its own, or one of a listener that it called. -/
inductive Strode (setup : Setup) (id : Nat) (t : Task) (w : World) : World → Prop where
  | own {w' : World} (h : Stride setup id t w w') : Strode setup id t w w'
  | acted {s : Nat} {pass : Pass} {l : Listener} {name label : String} {a : Action}
      {more : List (String × Action)} {fault : Option Fault} {rest : List Listener} {v : World}
      {p : Progress}
      (hp : t.position = .calling s pass l (.acting name ((label, a) :: more) fault) rest)
      (h : (w.note (.doing name label)).begin setup (.task id) a = (v, p)) :
      Strode setup id t w (v.settleAction id s pass l rest name label more fault p)
  | resumed {s : Nat} {pass : Pass} {l : Listener} {name label : String} {stage : Stage}
      {more : List (String × Action)} {fault : Option Fault} {rest : List Listener} {v : World}
      {p : Progress}
      (hp : t.position = .calling s pass l (.awaiting name label stage more fault) rest)
      (h : w.resume setup (.task id) stage = some (v, p)) :
      Strode setup id t w (v.settleAction id s pass l rest name label more fault p)

/-- A command to the store leaves the task where it was. -/
theorem Apart.result {α : Type} {r : Except Fault α × World} {a : Except Fault α} {v : World}
    {p : Position} (h : Apart id w r.2) (htasks : r.2.tasks = w.tasks) (hat : At id w p)
    (hr : r = (a, v)) : Apart id w v ∧ At id v p := by
  subst hr
  exact ⟨h, by rwa [At, htasks]⟩

theorem TaskStep.strode (ht : w.tasks[id]? = some t) (hproper : t.position.IsProper)
    (step : TaskStep setup w id t w') : Strode setup id t w w' := by
  have hat : At id w t.position := ⟨t, ht, rfl⟩
  cases step with
  | parked hp =>
    refine .own (.alike (.moveTask w _) rfl (hat.moveTask _) (.of_clear hp) ?_)
    rw [← Position.stage?_clear, hp, Position.stage?_clear]
  | @refused g f v hp hopen =>
    obtain ⟨hv, hmid⟩ :=
      (Apart.openStream w (.task id) _).result (perform_tasks w _ _ _) hat hopen
    exact .own (.away (hv.leaves (dropAttempt_leaves hmid)) (by rw [hp]; rfl))
  | @opened g s v hp hopen =>
    obtain ⟨hv, hmid⟩ :=
      (Apart.openStream w (.task id) _).result (perform_tasks w _ _ _) hat hopen
    have hmid : At id (v.takePending id t.cluster).2 t.position := hmid
    refine .own (.opened (s := s) ((hv.drain t.cluster).trans (.trans (.note _ rfl) (.moveTask _ _)))
      hp ?_)
    rw [← hv.listeners]
    exact hmid.moveTask (.passing s .full ((v.takePending id t.cluster).2.listeners.of t.cluster))
  | passed hp => exact .own (finishPass_stride ht hp)
  | called hp => exact .own (call_stride ht hp)
  | @unread s pass l g rest f v hp hread =>
    obtain ⟨hv, hmid⟩ :=
      (Apart.readFields w (.task id) _).result (perform_tasks w _ _ _) hat hread
    have hb : pass.hook.isBroken (some f) = true := by
      rw [hp] at hproper
      obtain ⟨-, hsyncs⟩ := hproper
      cases pass with
      | delivery m => cases hsyncs
      | _ => rfl
    exact .own (.away (hv.leaves (afterCallback_leaves hmid hb)) (by rw [hp]; rfl))
  | @read s pass l g rest fields v hp hread =>
    obtain ⟨hv, hmid⟩ :=
      (Apart.readFields w (.task id) _).result (perform_tasks w _ _ _) hat hread
    obtain ⟨hs, hfields⟩ := readFields_store w (.task id) (registryKey t.cluster)
    rw [hread] at hs hfields
    rw [hfields fields rfl]
    exact .own (.read (hv.trans (.moveTask _ _)) hs hp (hmid.moveTask _))
  | @replaced s pass l g rest fields hp =>
    have hmid : At id (w.updateCache t.cluster fun m => m.replace (addressesOf fields))
        t.position := hat
    obtain ⟨hapart, hstore, hgoes⟩ := @afterCallback_goes setup id t _ _ hmid s pass l none rest rfl
    have htells : (Mark.returned id l pass.hook none).tells = false := by
      rw [hp] at hproper
      obtain ⟨-, hsyncs⟩ := hproper
      cases pass with
      | delivery m => cases hsyncs
      | _ => rfl
    exact .own (.replaced ((Apart.note _ htells).trans hapart) hstore hp hgoes)
  | @returned s pass l name fault rest hp =>
    cases hb : pass.hook.isBroken fault with
    | true => exact .own (.away (afterCallback_leaves hat hb) (by rw [hp]; rfl))
    | false =>
      obtain ⟨hapart, hstore, hgoes⟩ := @afterCallback_goes setup id t w _ hat s pass l fault rest hb
      have htells : (Mark.returned id l pass.hook fault).tells = false := by
        rw [hp] at hproper
        have hl : l.isUpdater = false := hproper
        cases hh : pass.hook <;> cases fault <;> first | rfl | exact hl
      refine .own (.alike ((Apart.note w htells).trans hapart) hstore hgoes ?_ (by rw [hp]; rfl))
      rw [hp]
      exact ⟨rfl, rfl, rfl, rfl, fun _ h => h, fun _ => trivial⟩
  | acted hp hbegin => exact .acted hp hbegin
  | resumed hp hresume => exact .resumed hp hresume
  | @woken s v hp hn hv =>
    have hseen : Apart id w v := hv ▸ .updateTask w _ (fun _ => rfl) fun _ => rfl
    have hmid : At id (v.takePending id t.cluster).2 t.position :=
      ⟨{ t with notified := false }, by simp [takePending, note, hv, updateTask, ht], rfl⟩
    refine .own (.woken ((hseen.drain t.cluster).trans (.moveTask _ _)) (by subst hv; rfl) hp ?_)
    rw [← hseen.listeners]
    exact hmid.moveTask _
  | @received s payload store hp hn hnext =>
    have hv : Apart id w ({ w with store }.note (.read id (.message payload))) :=
      (Apart.stored w (.next hnext)).trans (.note _ rfl)
    exact .own (receive_stride hp hv ht hnext)
  | @closed s r f store hp hn hnext hr =>
    have hv : Apart id w ({ w with store }.note (.read id r)) :=
      (Apart.stored w (.next hnext)).trans (.note _ rfl)
    have hmid : At id ({ w with store }.note (.read id r)) t.position := hat
    exact .own (.away (hv.leaves (endAttempt_leaves hmid f)) (by rw [hp]; rfl))
  | retried hp hd =>
    have hmid : At id (w.count .subscriptionRestarts) t.position := hat
    obtain ⟨u, hu, hpos⟩ := hmid.moveTask (.opening .arriving)
    exact .own (.away ⟨(Apart.count w (by simp)).trans (.moveTask _ _), u, hu, by rw [hpos]; rfl⟩
      (by rw [hp]; rfl))

/-- What a listener does that a task called is a deed of the task. -/
theorem Strode.deed (ht : w.tasks[id]? = some t) (h : Strode setup id t w w') :
    Stride setup id t w w' ∨ ∃ trace v after, Silent w { w with trace } ∧
      Deed setup (∃ a, t.position.action? = some a ∧ a.isOutside = true) (.task id)
        { w with trace } (w.intent? (.task id)) v after ∧ Settles (.task id) v w' after := by
  have hintent : w.intent? (.task id) = t.position.intent? := by simp [intent?, ht]
  -- The task is where it was when the listener has done something.
  have settled : ∀ {loose : Prop} {trace : List Mark} {v : World} {before after : Option Intent}
      {s : Nat} {pass : Pass} {l : Listener} {rest : List Listener} {name label : String}
      {more : List (String × Action)} {fault : Option Fault} {p : Progress},
      Deed setup loose (.task id) { w with trace } before v after →
      t.position.Alike (.calling s pass l (.acting name more fault) rest) →
      Settles (.task id) v (v.settleAction id s pass l rest name label more fault p) p.intent? := by
    intro loose trace v before after s pass l rest name label more fault p d ha
    obtain ⟨u, hu, -, hp, -⟩ := (@Elsewhere.edits setup id _ _ d.edits).task t ht
    exact settleAction_settles hu (hp ▸ ha) p
  cases h with
  | own h => exact .inl h
  | @acted s pass l name label a more fault rest v p hp hbegin =>
    have hd := @begin_deed setup (w.note (.doing name label)) (.task id) a
    rw [hbegin] at hd
    have hloose : a.isOutside = true →
        ∃ a, t.position.action? = some a ∧ a.isOutside = true := fun ha => ⟨a, by rw [hp]; rfl, ha⟩
    have hd := hd.mono hloose
    have hnone : w.intent? (.task id) = none := by rw [hintent, hp]; rfl
    refine .inr ⟨_, v, _, .note w rfl, by rw [hnone]; exact hd, settled hd ?_⟩
    rw [hp]
    exact ⟨rfl, rfl, rfl, rfl, fun _ h => h, fun h => h⟩
  | @resumed s pass l name label stage more fault rest v p hp hresume =>
    have hd : Deed setup (∃ a, t.position.action? = some a ∧ a.isOutside = true) (.task id)
        { w with trace := w.trace } stage.intent? v p.intent? := resume_deed hresume
    have hsome : w.intent? (.task id) = stage.intent? := by rw [hintent, hp]; rfl
    refine .inr ⟨_, v, _, .same rfl, by rw [hsome]; exact hd, settled hd ?_⟩
    rw [hp]
    exact ⟨rfl, rfl, rfl, rfl, fun _ h => h, fun h => h⟩

end World

end Muster
