import Muster.Client.Subscriptions

/-!
# Calls

How a call on the client begins, goes on and is given up. Beginning runs a call to its first
stage; resuming runs it to the next one, or not at all while it has to wait. A lookup loads its
cluster once: it reads the hash, attaches an updater and waits for the subscription's first
attempt, while other lookups of the cluster wait in line.

| here | in the program, `RegistryClient` unless another type is named |
| --- | --- |
| `beginChange`, `write`, `announce` | `register` and `unregister`, after `ensure_open` |
| `beginLoad` | `load` up to `initialize` of `ClusterMembership` |
| `read`, `takeSnapshot`, `awaitStart` | the closure that `load` gives to `initialize` |
| `finishLoad`, `failLoad` | the two ways in which `initialize` returns to its caller |
| `loadedAnswer` | `lookup` and `lookup_view` after `load` |
| `beginDetach`, stage `joining` | `unsubscribe`, and `stop` of the `SubscriptionHandle` |
| `beginWatch` | `wait_until_settled`, `wait_while_starting` of `SubscriptionManager` |
| `drain` | `shutdown` of `SubscriptionManager`, where it awaits the handles |
| `describeClient`, `describeSubscriptions` | the debug texts of both types |
| `abandon` | a call whose caller drops it |
-/
namespace Muster

/-- A call is finished or stands at a stage. -/
inductive Progress where
  | finished (answer : Answer)
  | paused (stage : Stage)
deriving DecidableEq, Repr

/-- The answer for a result without a value. -/
def Answer.ofResult : Except Fault Unit → Answer
  | .ok () => .done
  | .error f => .failed f

/-- A name in double quotes, with escapes. -/
def quoted (s : String) : String :=
  let escape (c : Char) : List Char :=
    if c = '"' then ['\\', '"'] else if c = '\\' then ['\\', '\\']
    else if c = '\n' then ['\\', 'n'] else if c = '\r' then ['\\', 'r']
    else if c = '\t' then ['\\', 't'] else if c.toNat = 0 then ['\\', '0'] else [c]
  "\"" ++ String.ofList (s.toList.flatMap escape) ++ "\""

/-- Names in code point order. -/
def sortedNames (ns : List String) : List String := ns.mergeSort fun a b => a ≤ b

namespace World

/-! ## Descriptions -/

def describeClient (setup : Setup) (w : World) : String :=
  "RegistryClient \x7b cluster: " ++ quoted setup.config.cluster
    ++ ", store: \"memory\", clusters: ["
    ++ ", ".intercalate ((sortedNames w.caches.keys).map quoted) ++ "] \x7d"

def describeSubscriptions (w : World) : String :=
  "SubscriptionManager \x7b store: \"memory\", tasks: " ++ toString w.handles.size
    ++ ", shutdown: " ++ toString w.closed ++ " \x7d"

/-! ## Lookups -/

/-- The answer of a lookup whose cluster is loaded. -/
def loadedAnswer (w : World) (load : Load) : Answer :=
  let m := w.caches.entry load.cluster
  if load.wantsView then
    .view {
      cluster := load.cluster
      addresses := Address.sort m.members
      status := (w.status? load.cluster).getD .stopped
      touched := m.touched
      loaded := m.cell.isLoaded }
  else .addresses (Address.sort m.members)

/-- The load fails; the first in line takes over. -/
def failLoad (w : World) (load : Load) (f : Fault) : World × Progress :=
  (w.updateCell load.cluster Cell.handOver, .finished (.failed f))

/-- The load succeeds; all in line are served. -/
def finishLoad (w : World) (load : Load) : World × Progress :=
  let w := w.updateCell load.cluster fun _ => .loaded
  (w, .finished (w.loadedAnswer load))

/-- Begins a lookup. -/
def beginLoad (setup : Setup) (w : World) (who : Actor) (key : String) (wantsView : Bool) :
    World × Progress :=
  if w.closed then (w, .finished (.failed .shutdown))
  else
    let w := w.count .lookups
    match setup.source.cluster? key with
    | none => (w, .finished (.failed (.clusterNotFound key)))
    | some cluster =>
      let load : Load := ⟨cluster, wantsView⟩
      let w := w.updateCell cluster (Cell.enter who)
      match (w.caches.entry cluster).cell with
      | .loaded => (w, .finished (w.loadedAnswer load))
      | .loading owner _ =>
        if owner = who then (w, .paused (.reading load .arriving)) else (w, .paused (.queued load))
      | .empty => (w, .paused (.queued load))

/-- Waits for the outcome of the first attempt, or finishes the load. -/
def awaitStart (w : World) (load : Load) : World × Progress :=
  match w.slots.get? load.cluster with
  | some slot =>
    if Goal.started.met slot.status then w.finishLoad load
    else (w, .paused (.starting load slot.version))
  | none => w.finishLoad load

/-- The reply of the hash is there: fills the cache and attaches an updater. -/
def takeSnapshot (setup : Setup) (w : World) (load : Load) (fields : List (String × String)) :
    World × Progress :=
  let w := w.updateCache load.cluster fun m => m.replace (addressesOf fields)
  let updater := Listener.updater load.cluster w.updaters
  let w := { w with updaters := w.updaters + 1 }
  match w.attach setup load.cluster updater with
  | (.error f, w) => w.failLoad load f
  | (.ok (), w) => w.awaitStart load

/-! ## Beginning -/

/-- Begins a register or unregister call. -/
def beginChange (w : World) (kind : EventKind) (text : String) : World × Progress :=
  match Address.ofText text with
  | .error f => (w, .finished (.failed f))
  | .ok a =>
    if w.closed then (w, .finished (.failed .shutdown))
    else
      match a.validate with
      | .error f => (w, .finished (.failed f))
      | .ok () => (w, .paused (.writing ⟨a, kind⟩ .arriving))

/-- Begins to detach a listener. -/
def beginDetach (w : World) (cluster : String) (l : Listener) (guarded : Bool) :
    World × Progress :=
  if guarded && w.closed then (w, .finished (.failed .shutdown))
  else
    match w.detach cluster l with
    | (had, none, w) => (w, .finished (.truth had))
    | (_, some id, w) => (w, .paused (.joining id))

/-- Waits for a status, unless the cluster never had one. -/
def beginWatch (w : World) (cluster : String) (goal : Goal) : World × Progress :=
  match w.slots.get? cluster with
  | none => (w, .finished (.status none))
  | some slot =>
    if goal.met slot.status then (w, .finished (.status (some slot.status)))
    else (w, .paused (.watching cluster goal slot.version))

/-- Waits for the tasks that have not ended. -/
def drain (w : World) (tasks : List Nat) : World × Progress :=
  match tasks.dropWhile w.hasEnded with
  | [] => (w, .finished .done)
  | left => (w, .paused (.draining left))

/-- Sends messages until one fails; answers for the last. -/
def sendAll (w : World) (key : String) (last : Nat) : List String → World × Answer
  | [] => (w, .number last)
  | m :: rest =>
    match w.store.publish key m with
    | .error f => (w, .failed f)
    | .ok (n, store) => sendAll { w with store } key n rest

/-- Begins an action and runs it to its first stage. -/
def begin (setup : Setup) (w : World) (who : Actor) : Action → World × Progress
  | .register a => w.beginChange .register a
  | .unregister a => w.beginChange .unregister a
  | .lookup key => w.beginLoad setup who key false
  | .view key => w.beginLoad setup who key true
  | .attach cluster l =>
    let (r, w) := w.attach setup cluster (.user l)
    (w, .finished (.ofResult r))
  | .detach cluster l guarded => w.beginDetach cluster (.user l) guarded
  | .awaitSettled cluster => w.beginWatch cluster .settled
  | .awaitStarted cluster => w.beginWatch cluster .started
  | .shutdown =>
    let (tasks, w) := w.close
    w.drain tasks
  | .isShutdown => (w, .finished (.truth w.closed))
  | .activeClusters => (w, .finished (.names (sortedNames w.activeClusters)))
  | .listenerCount cluster => (w, .finished (.number (w.listeners.count cluster)))
  | .readCounters => (w, .finished (.counters w.counters))
  | .configuration => (w, .finished (.identity setup.config.cluster setup.config.identity))
  | .describeClient => (w, .finished (.text (w.describeClient setup)))
  | .describeSubscriptions => (w, .finished (.text w.describeSubscriptions))
  | .putField key field value =>
    match w.store.setField key field value with
    | .error f => (w, .finished (.failed f))
    | .ok store => ({ w with store }, .finished .done)
  | .dropField key field =>
    match w.store.deleteField key field with
    | .error f => (w, .finished (.failed f))
    | .ok (had, store) => ({ w with store }, .finished (.truth had))
  | .readHash key =>
    match w.store.fields key with
    | .error f => (w, .finished (.failed f))
    | .ok fields => (w, .finished (.fields fields))
  | .send key messages =>
    let (w, a) := w.sendAll key 0 messages
    (w, .finished a)
  | .disconnect key =>
    let (n, store) := w.store.disconnect key
    ({ w with store }, .finished (.number n))
  | .setUnavailable value =>
    ({ w with store := w.store.setUnavailable value }, .finished .done)
  | .subscribers key =>
    (w, .finished (.subscribers (w.store.subscribers key) w.store.opened))
  | .inject method times fault =>
    let laid := (w.faults.get? method).getD []
    ({ w with faults := w.faults.insert method (laid ++ List.replicate times fault) },
      .finished .done)
  | .hold method =>
    ({ w with holding := if method ∈ w.holding then w.holding else method :: w.holding },
      .finished .done)

/-! ## Going on -/

/-- The change of the hash. -/
def write (setup : Setup) (w : World) (who : Actor) (e : Event) : World × Progress :=
  let key := setup.config.ownKey
  let (r, w) := match e.kind with
    | .register => w.setField who key e.address.text setup.config.identity
    | .unregister =>
      let (r, w) := w.deleteField who key e.address.text
      (r.map fun _ => (), w)
  match r with
  | .error f => (w, .finished (.failed f))
  | .ok () => (w, .paused (.announcing e .arriving))

/-- The announcement of the change. -/
def announce (setup : Setup) (w : World) (who : Actor) (e : Event) : World × Progress :=
  match w.publishMessage who setup.config.ownKey e.encode with
  | (.error f, w) => (w, .finished (.failed f))
  | (.ok _, w) =>
    let counter := match e.kind with
      | .register => Counter.registrations
      | .unregister => Counter.unregistrations
    (w.count counter, .finished .done)

/-- The reading of the hash for a load. -/
def read (w : World) (who : Actor) (load : Load) : World × Progress :=
  match w.readFields who (registryKey load.cluster) with
  | (.error f, w) => w.failLoad load f
  | (.ok fields, w) => (w, .paused (.replied load fields .arriving))

/-- Goes through a gate: nothing while held up, one step to be held up, or `go`. -/
def throughGate (w : World) (m : Method) (g : Gate) (hold : Stage) (go : World × Progress) :
    Option (World × Progress) :=
  match w.passage m g with
  | .stays => none
  | .parks => some (w, .paused hold)
  | .goes => some go

/-- Runs a call to its next stage, or says that it has to wait. -/
def resume (setup : Setup) (w : World) (who : Actor) : Stage → Option (World × Progress)
  | .writing e g =>
    let m := match e.kind with
      | .register => Method.setField
      | .unregister => Method.deleteField
    w.throughGate m g (.writing e .held) (w.write setup who e)
  | .announcing e g => w.throughGate .publish g (.announcing e .held) (w.announce setup who e)
  | .queued load =>
    match (w.caches.entry load.cluster).cell with
    | .loaded => some (w, .finished (w.loadedAnswer load))
    | .loading owner _ =>
      if owner = who then some (w, .paused (.reading load .arriving)) else none
    | .empty => none
  | .reading load g => w.throughGate .readFields g (.reading load .held) (w.read who load)
  | .replied load fields g =>
    w.throughGate .readReply g (.replied load fields .held) (w.takeSnapshot setup load fields)
  | .starting load seen =>
    match w.slots.get? load.cluster with
    | some slot => if slot.version = seen then none else some (w.awaitStart load)
    | none => none
  | .watching cluster goal seen =>
    match w.slots.get? cluster with
    | some slot => if slot.version = seen then none else some (w.beginWatch cluster goal)
    | none => none
  | .joining task => if w.hasEnded task then some (w, .finished (.truth true)) else none
  | .draining tasks =>
    match tasks with
    | task :: _ => if w.hasEnded task then some (w.drain tasks) else none
    | [] => some (w, .finished .done)

/-! ## Giving up -/

/-- A call is dropped at a stage. A load that it owned goes to the first in line. -/
def abandon (w : World) (who : Actor) : Stage → World
  | .queued load | .reading load _ | .replied load _ _ | .starting load _ =>
    w.updateCell load.cluster (Cell.leave who)
  | _ => w

end World

end Muster
