import Muster.Client.Position
import Muster.Listeners

/-!
# The state of a client and its store

One store, one client, its tasks and calls, the time, and a record of all that happened, newest
first. The store may be shared: seen from one client, others are whoever else changes it.
Functions here make the small changes from which steps are built.

| here | in the program |
| --- | --- |
| `listeners`, `slots` | `listeners`, `statuses` of `SubscriptionManager` |
| `handles`, `closed` | its `tasks`, and whether its `root` is cancelled |
| `caches`, `counters` | `membership`, `stats` of `RegistryClient` |
| `tasks` | every `SubscriptionWorker` that `spawn` has started |
| `running?`, `hasEnded` | `is_running` of `SubscriptionHandle` |
| `publish` | `set_status` of `SubscriptionWorker` |
| `setField`, `deleteField`, `readFields` | `hash_set`, `hash_delete`, `hash_get_all` of the store |
| `publishMessage`, `openStream` | `publish`, `subscribe` of the store |
-/
namespace Muster

/-- One thing that happened. -/
inductive Mark where
  /-- A command reached the store, or failed. -/
  | stored (actor : Actor) (call : StoreCall) (fault : Option Fault)
  | called (task : Nat) (listener : Listener) (hook : Hook)
  | returned (task : Nat) (listener : Listener) (hook : Hook) (fault : Option Fault)
  /-- A listener was attached to a cluster; it joined a running task, or a task was started. -/
  | attached (cluster : String) (listener : Listener) (joined : Bool)
  /-- One registration of a listener ended. -/
  | detached (cluster : String) (listener : Listener)
  /-- A listener begins one of its actions. -/
  | doing (listener label : String)
  | did (listener label : String) (answer : Answer)
  | spawned (task : Nat) (cluster : String) (generation : Nat)
  | cancelled (task : Nat)
  | ended (task : Nat)
  /-- A task opened a stream; `start` items had been sent on the channel. -/
  | opened (task stream start : Nat)
  | read (task : Nat) (reading : Reading)
  /-- A task took the queue of a cluster. -/
  | took (task : Nat) (cluster : String) (queue : List Listener)
  /-- A message that was read is on its way to an audience. -/
  | dispatched (task : Nat) (message : String) (audience : List Listener)
  /-- A task wrote the status of its cluster. -/
  | published (task : Nat) (status : Status)
  | asked (call : Nat) (action : Action)
  | answered (call : Nat) (answer : Answer)
deriving DecidableEq, Repr

structure World where
  store : Memory
  listeners : Listeners Listener := {}
  slots : Table String Slot := {}
  /-- The current task of each cluster that has one. -/
  handles : Table String Nat := {}
  /-- All tasks ever started; the index of a task is its number. -/
  tasks : List Task := []
  /-- A shutdown has begun. -/
  closed : Bool := false
  counters : Counters := {}
  caches : Caches Actor := {}
  /-- How many updaters were created. -/
  updaters : Nat := 0
  /-- The calls in progress. -/
  calls : Table Nat Stage := {}
  /-- How often each listener was called to sync, and with an event. -/
  visits : Table (String × Bool) Nat := {}
  /-- The faults that the next commands of a kind meet. -/
  faults : Table Method (List Fault) := {}
  /-- The kinds of command that are held up. -/
  holding : List Method := []
  /-- Nanoseconds since the beginning. -/
  clock : Nat := 0
  /-- How many waits were drawn. -/
  draws : Nat := 0
  /-- All that happened, newest first. -/
  trace : List Mark := []

namespace World

def note (w : World) (m : Mark) : World := { w with trace := m :: w.trace }

def count (w : World) (c : Counter) : World := { w with counters := w.counters.incr c }

def updateCache (w : World) (cluster : String)
    (f : Membership Actor → Membership Actor) : World :=
  { w with caches := w.caches.update cluster f }

def updateCell (w : World) (cluster : String) (f : Cell Actor → Cell Actor) : World :=
  w.updateCache cluster fun m => { m with cell := f m.cell }

/-! ## Tasks -/

def updateTask (w : World) (id : Nat) (f : Task → Task) : World :=
  { w with tasks := w.tasks.modify id f }

def moveTask (w : World) (id : Nat) (p : Position) : World :=
  w.updateTask id fun t => { t with position := p }

/-- Lets the command of an actor, if it stands before one, through its gate. -/
def clear (w : World) : Actor → World
  | .task id => w.updateTask id fun t => { t with position := t.position.clear }
  | .call id => { w with calls := w.calls.modify id Stage.clear }

/-- A task has ended, or never was. -/
def hasEnded (w : World) (id : Nat) : Bool := (w.tasks[id]?).all Task.isEnded

def cancel (w : World) (id : Nat) : World :=
  (w.updateTask id fun t => { t with cancelled := true }).note (.cancelled id)

def cancelAll (w : World) : World :=
  { w with tasks := w.tasks.map fun t => { t with cancelled := true } }

/-- The running task of a cluster. -/
def running? (w : World) (cluster : String) : Option Nat :=
  (w.handles.get? cluster).filter fun id => !w.hasEnded id

/-! ## Status -/

def status? (w : World) (cluster : String) : Option Status :=
  (w.slots.get? cluster).map (·.status)

/-- A task writes the status of its cluster; one that was superseded changes nothing. -/
def publish (w : World) (id : Nat) (t : Task) (s : Status) : World :=
  match w.slots.get? t.cluster with
  | none => w
  | some slot =>
    if slot.generation = t.generation then
      { w with slots := w.slots.insert t.cluster (slot.publish t.generation s) }.note
        (.published id s)
    else w

/-! ## Gates -/

/-- What happens to a command at a gate: it stays, it is held up from now on, or it goes on. -/
inductive Passage where
  | stays
  | parks
  | goes

def passage (w : World) (m : Method) : Gate → Passage
  | .held => .stays
  | .cleared => .goes
  | .arriving => if m ∈ w.holding then .parks else .goes

/-! ## Commands to the store -/

/-- Takes the next fault that was laid for a kind of command. -/
def takeFault (w : World) (m : Method) : Option Fault × World :=
  match w.faults.get? m with
  | some (f :: rest) => (some f, { w with faults := w.faults.insert m rest })
  | _ => (none, w)

/-- Runs a command: it meets a laid fault or reaches the store, and is recorded either way. -/
def perform {α : Type} (w : World) (who : Actor) (call : StoreCall)
    (command : Memory → Except Fault (α × Memory)) : Except Fault α × World :=
  let (laid, w) := w.takeFault call.method
  match laid with
  | some f => (.error f, w.note (.stored who call (some f)))
  | none =>
    match command w.store with
    | .error f => (.error f, w.note (.stored who call (some f)))
    | .ok (a, store) => (.ok a, { w with store }.note (.stored who call none))

def setField (w : World) (who : Actor) (key field value : String) : Except Fault Unit × World :=
  w.perform who (.setField key field value) fun s => (s.setField key field value).map ((), ·)

def deleteField (w : World) (who : Actor) (key field : String) : Except Fault Bool × World :=
  w.perform who (.deleteField key field) fun s => s.deleteField key field

def readFields (w : World) (who : Actor) (key : String) :
    Except Fault (List (String × String)) × World :=
  w.perform who (.readFields key) fun s => (s.fields key).map (·, s)

def publishMessage (w : World) (who : Actor) (key message : String) : Except Fault Nat × World :=
  w.perform who (.publish key message) fun s => s.publish key message

def openStream (w : World) (who : Actor) (key : String) : Except Fault Nat × World :=
  w.perform who (.subscribe key) fun s => s.subscribe key

end World

end Muster
