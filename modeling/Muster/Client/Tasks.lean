import Muster.Client.Call

/-!
# Subscription tasks

One step of a task. A task opens a stream, has every listener synchronised, becomes active and
then takes messages one by one; each goes to all listeners in order of registration, after those
that joined in the meantime were synchronised. A transient fault closes the stream and the task
waits before it tries again; a fatal one, or one attempt too many, ends it.

| here | in the program, `SubscriptionWorker` unless another type is named |
| --- | --- |
| `stepTask`, `stopTask` | `run`, where it looks at the token |
| `advanceTask`, `listen` | `attempt`, cut where it awaits, and the sleep of `run` |
| `dropAttempt` | `run` after an attempt that dropped |
| `endAttempt` | `classify` and what `run` does with the outcome |
| `failTask`, `finishTask` | `fail`, `set_status` |
| `beginFullPass`, `finishPass` | `attempt` around its calls of `on_subscribed` |
| `receive`, `call`, `afterCallback` | `dispatch`, for a pass `.delivery` |
| `takePending` and a pass `.joined` or `.beforeDelivery` | `sync_joined` |
| `applyEvent`, `resumeCallback` | `on_event` and `on_subscribed` of `MembershipUpdater` |
-/
namespace Muster

namespace World

/-! ## The end of an attempt -/

/-- Closes a stream of a task. -/
def closeStream (w : World) (t : Task) : World :=
  match t.position.stream? with
  | some s => { w with store := w.store.close (registryKey t.cluster) s }
  | none => w

/-- Ends a task with a last status. -/
def finishTask (w : World) (id : Nat) (t : Task) (s : Status) : World :=
  let w := w.publish id t s
  (w.moveTask id .ended).note (.ended id)

/-- The task gives up. -/
def failTask (w : World) (id : Nat) (t : Task) : World :=
  (w.count .subscriptionFailures).finishTask id t .failed

/-- An attempt ended without a protocol fault: the task waits for the next one, unless this was
the last that it may make, or there is no wait any more. -/
def dropAttempt (setup : Setup) (w : World) (id : Nat) (t : Task) : World :=
  let failures := t.failures + 1
  if 0 < setup.config.restart.maxAttempts ∧ setup.config.restart.maxAttempts ≤ failures then
    (w.updateTask id fun t => { t with failures }).failTask id t
  else
    match t.backoff.wait (setup.elapsed w.draws) (setup.delay w.draws) with
    | (none, _) => (w.updateTask id fun t => { t with failures }).failTask id t
    | (some wait, backoff) =>
      let due := w.clock + wait
      let w := { w with draws := w.draws + 1 }
      let w := w.updateTask id fun t => { t with failures, backoff, position := .waiting due }
      w.publish id t .reconnecting

/-- An attempt ended on a fault: the stream closes, and a fatal fault ends the task. -/
def endAttempt (setup : Setup) (w : World) (id : Nat) (t : Task) (f : Fault) : World :=
  let w := w.closeStream t
  if f.isFatal then w.failTask id t else w.dropAttempt setup id t

/-- The stream of a cluster ended. -/
def streamClosed (cluster : String) : Fault :=
  .transport ("subscription to " ++ registryKey cluster ++ " closed")

/-! ## Calling listeners -/

/-- A call of a listener returned. A fault ends the attempt, except that in a delivery only a
fatal one does. -/
def afterCallback (setup : Setup) (w : World) (id : Nat) (t : Task) (stream : Nat) (pass : Pass)
    (l : Listener) (fault : Option Fault) (rest : List Listener) : World :=
  let w := w.note (.returned id l pass.hook fault)
  match fault, pass with
  | none, _ => w.moveTask id (.passing stream pass rest)
  | some f, .delivery _ =>
    if f.isFatal then (w.count .protocolFaults).endAttempt setup id t f
    else (w.count .listenerFaults).moveTask id (.passing stream pass rest)
  | some f, _ => w.endAttempt setup id t f

/-- The updater of a cluster applies an event. -/
def applyEvent (w : World) (cluster message : String) : Option Fault × World :=
  match Event.decode message with
  | .error f => (some f, w)
  | .ok e => (none, (w.updateCache cluster fun m => m.apply e).count .eventsApplied)

/-- Calls a listener. An updater applies an event at once; all else takes further steps. -/
def call (setup : Setup) (w : World) (id : Nat) (t : Task) (stream : Nat) (pass : Pass)
    (l : Listener) (rest : List Listener) : World :=
  let w := w.note (.called id l pass.hook)
  match l, pass.hook with
  | .user name, hook =>
    let visit := (name, decide (hook = .sync))
    let n := (w.visits.get? visit).getD 0 + 1
    let w := { w with visits := w.visits.insert visit n }
    let b := setup.behaviour name hook n
    w.moveTask id (.calling stream pass l (.acting name b.actions b.fault) rest)
  | .updater _ _, .event message =>
    let (fault, w) := w.applyEvent t.cluster message
    w.afterCallback setup id t stream pass l fault rest
  | .updater _ _, .sync =>
    w.moveTask id (.calling stream pass l (.reading .arriving) rest)

/-- Records the progress of an action of a user listener. -/
def settleAction (w : World) (id stream : Nat) (pass : Pass) (l : Listener)
    (rest : List Listener) (name label : String) (more : List (String × Action))
    (fault : Option Fault) : Progress → World
  | .finished answer =>
    (w.note (.did name label answer)).moveTask id
      (.calling stream pass l (.acting name more fault) rest)
  | .paused stage =>
    w.moveTask id (.calling stream pass l (.awaiting name label stage more fault) rest)

/-- Goes on within the call of a listener, or says that it has to wait. -/
def resumeCallback (setup : Setup) (w : World) (id : Nat) (t : Task) (stream : Nat) (pass : Pass)
    (l : Listener) (rest : List Listener) : Callback → Option World
  | .reading g =>
    match w.passage .readFields g with
    | .stays => none
    | .parks => some (w.moveTask id (.calling stream pass l (.reading .held) rest))
    | .goes =>
      some <| match w.readFields (.task id) (registryKey t.cluster) with
        | (.error f, w) => w.afterCallback setup id t stream pass l (some f) rest
        | (.ok fields, w) =>
          w.moveTask id (.calling stream pass l (.replied fields .arriving) rest)
  | .replied fields g =>
    match w.passage .readReply g with
    | .stays => none
    | .parks => some (w.moveTask id (.calling stream pass l (.replied fields .held) rest))
    | .goes =>
      let w := w.updateCache t.cluster fun m => m.replace (addressesOf fields)
      some (w.afterCallback setup id t stream pass l none rest)
  | .acting _ [] fault => some (w.afterCallback setup id t stream pass l fault rest)
  | .acting name ((label, a) :: more) fault =>
    let (w, p) := (w.note (.doing name label)).begin setup (.task id) a
    some (w.settleAction id stream pass l rest name label more fault p)
  | .awaiting name label stage more fault =>
    (w.resume setup (.task id) stage).map fun (w, p) =>
      w.settleAction id stream pass l rest name label more fault p

/-! ## Passes and messages -/

/-- A pass has called all its listeners. -/
def finishPass (w : World) (id : Nat) (t : Task) (stream : Nat) : Pass → World
  | .full =>
    let w := w.publish id t .active
    w.updateTask id fun t =>
      { t with failures := 0, backoff := t.backoff.reset, position := .listening stream }
  | .beforeDelivery message audience => w.moveTask id (.passing stream (.delivery message) audience)
  | .joined | .delivery _ => w.moveTask id (.listening stream)

/-- A task takes the queue of its cluster. -/
def takePending (w : World) (id : Nat) (cluster : String) : List Listener × World :=
  let (queue, listeners) := w.listeners.takePending cluster
  (queue, { w with listeners }.note (.took id cluster queue))

/-- A stream was opened: all listeners are to be synchronised, those in the queue among them. -/
def beginFullPass (w : World) (id : Nat) (t : Task) (stream : Nat) : World :=
  let (_, w) := w.takePending id t.cluster
  let start := (w.store.log (registryKey t.cluster)).length
  (w.note (.opened id stream start)).moveTask id (.passing stream .full (w.listeners.of t.cluster))

/-- Handles a payload. The audience is fixed now; who joined before goes first. -/
def receive (setup : Setup) (w : World) (id : Nat) (t : Task) (stream : Nat) (payload : String) :
    World :=
  match setup.screen payload with
  | .error f => w.endAttempt setup id t f
  | .ok message =>
    let w := w.count .eventsReceived
    match Event.decode message with
    | .error f => (w.count .protocolFaults).endAttempt setup id t f
    | .ok _ =>
      let audience := w.listeners.of t.cluster
      let (queue, w) := w.takePending id t.cluster
      (w.note (.dispatched id message audience)).moveTask id
        (.passing stream (.beforeDelivery message audience) queue)

/-- A task that listens: joiners first, then the stream. -/
def listen (setup : Setup) (w : World) (id : Nat) (t : Task) (stream : Nat) : Option World :=
  if t.notified then
    let w := w.updateTask id fun t => { t with notified := false }
    let (queue, w) := w.takePending id t.cluster
    some (w.moveTask id (.passing stream .joined queue))
  else
    let (reading, store) := w.store.next (registryKey t.cluster) stream
    if reading = .pending then none
    else
      let w := { w with store }.note (.read id reading)
      some <| match reading with
        | .message payload => w.receive setup id t stream payload
        | .lagged n => w.endAttempt setup id t (Memory.lagFault n)
        | _ => w.endAttempt setup id t (streamClosed t.cluster)

/-! ## Steps -/

/-- One step of a task that does not look at its cancellation, or nothing while it has to wait. -/
def advanceTask (setup : Setup) (w : World) (id : Nat) (t : Task) : Option World :=
  match t.position with
  | .opening g =>
    match w.passage .subscribe g with
    | .stays => none
    | .parks => some (w.moveTask id (.opening .held))
    | .goes =>
      some <| match w.openStream (.task id) (registryKey t.cluster) with
        | (.error _, w) => w.dropAttempt setup id t
        | (.ok stream, w) => w.beginFullPass id t stream
  | .passing stream pass [] => some (w.finishPass id t stream pass)
  | .passing stream pass (l :: rest) => some (w.call setup id t stream pass l rest)
  | .calling stream pass l callback rest =>
    w.resumeCallback setup id t stream pass l rest callback
  | .listening stream => w.listen setup id t stream
  | .waiting due =>
    if due ≤ w.clock then
      some ((w.count .subscriptionRestarts).moveTask id (.opening .arriving))
    else none
  | .ended => none

/-- A cancelled task drops what it is doing and stops. -/
def stopTask (w : World) (id : Nat) (t : Task) : World :=
  let w := match t.position with
    | .calling _ _ _ (.awaiting _ _ stage _ _) _ => w.abandon (.task id) stage
    | _ => w
  (w.closeStream t).finishTask id t .stopped

/-- One step of a task: stopping if it was cancelled, else going on. -/
def stepTask (setup : Setup) (w : World) (id : Nat) (t : Task) : Option World :=
  if t.isEnded then none
  else if t.cancelled then some (w.stopTask id t)
  else w.advanceTask setup id t

/-! ## Actors -/

/-- Records the progress of a call. -/
def settleCall (w : World) (id : Nat) : Progress → World
  | .finished answer => { w with calls := w.calls.erase id }.note (.answered id answer)
  | .paused stage => { w with calls := w.calls.insert id stage }

/-- Begins a call on the client. -/
def ask (setup : Setup) (w : World) (id : Nat) (a : Action) : World :=
  let (w, p) := (w.note (.asked id a)).begin setup (.call id) a
  w.settleCall id p

def stepCall (setup : Setup) (w : World) (id : Nat) : Option World :=
  match w.calls.get? id with
  | none => none
  | some stage => (w.resume setup (.call id) stage).map fun (w, p) => w.settleCall id p

/-- Drops a call in progress. -/
def dropCall (w : World) (id : Nat) : World :=
  match w.calls.get? id with
  | none => w
  | some stage => { w.abandon (.call id) stage with calls := w.calls.erase id }

/-- One step of an actor, or nothing while it has to wait. -/
def step (setup : Setup) (w : World) : Actor → Option World
  | .task id => (w.tasks[id]?).bind fun t => w.stepTask setup id t
  | .call id => w.stepCall setup id

/-- One step of an actor that does not look at a cancellation. -/
def advance (setup : Setup) (w : World) : Actor → Option World
  | .task id => (w.tasks[id]?).bind fun t => w.advanceTask setup id t
  | .call id => w.stepCall setup id

end World

end Muster
