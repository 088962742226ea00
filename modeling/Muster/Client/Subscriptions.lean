import Muster.Client.World

/-!
# Attaching and detaching listeners

A cluster has a task exactly as long as it has listeners. Attaching the first one starts a task
under a new generation of the status; a listener that joins a running task is queued, so that the
task synchronises it before the next event. A task that has failed is replaced by the next
listener that comes. Detaching the last listener cancels the task.

| here | in the program, `SubscriptionManager` |
| --- | --- |
| `attach` | `subscribe` |
| `joinable?` | the test for a live task in `subscribe` |
| `spawn` | `spawn` |
| `detach` | `unsubscribe`, up to where it awaits the task |
| `close` | `shutdown`, up to where it awaits the handles |
| `activeClusters` | `active_clusters` |
-/
namespace Muster

namespace World

/-- The task of a cluster that a new listener can join. -/
def joinable? (w : World) (cluster : String) : Option Nat :=
  if (w.status? cluster).any Status.isTerminal then none else w.running? cluster

/-- Starts a task for a cluster. -/
def spawn (setup : Setup) (w : World) (cluster : String) : World :=
  let slot := ((w.slots.get? cluster).getD {}).begin
  let id := w.tasks.length
  let task : Task := {
    cluster, generation := slot.generation
    backoff := Backoff.ofPolicy setup.config.restart }
  let w := { w with
    slots := w.slots.insert cluster slot
    tasks := w.tasks ++ [task]
    handles := w.handles.insert cluster id }
  (w.count .subscriptionStarts).note (.spawned id cluster slot.generation)

/-- Attaches a listener. -/
def attach (setup : Setup) (w : World) (cluster : String) (l : Listener) :
    Except Fault Unit × World :=
  if w.closed then (.error .shutdown, w)
  else
    match w.joinable? cluster with
    | some id =>
      let w := { w with listeners := (w.listeners.enqueue cluster l).add cluster l }
      (.ok (), (w.note (.attached cluster l true)).updateTask id fun t => { t with notified := true })
    | none =>
      let w := { w with listeners := w.listeners.add cluster l }
      (.ok (), (w.note (.attached cluster l false)).spawn setup cluster)

/-- Detaches a listener. Answers whether it was attached, and the task that was cancelled and has
not ended yet. -/
def detach (w : World) (cluster : String) (l : Listener) : Bool × Option Nat × World :=
  match w.listeners.remove cluster l with
  | (none, _) => (false, none, w)
  | (some 0, listeners) =>
    let handle := w.handles.get? cluster
    let w := { w with listeners, handles := w.handles.erase cluster }.note (.detached cluster l)
    match handle with
    | none => (true, none, w)
    | some id =>
      let w := w.cancel id
      (true, if w.hasEnded id then none else some id, w)
  | (some _, listeners) => (true, none, { w with listeners }.note (.detached cluster l))

/-- Begins a shutdown: cancels every task and takes the handles out. -/
def close (w : World) : List Nat × World :=
  (w.handles.entries.map (·.2), { w.cancelAll with closed := true, handles := {} })

/-- Clusters with a running task. -/
def activeClusters (w : World) : List String :=
  w.handles.keys.filter fun c => (w.running? c).isSome

end World

end Muster
