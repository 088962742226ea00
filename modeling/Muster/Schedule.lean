import Muster.Client.Tasks

/-!
# Schedules

One deterministic order among all that the steps of a client allow: actors that can go on run in
the order in which they became able to, each until it has to wait. A command is carried out, then
everybody runs until all wait. Held commands are let through one at a time, by key and then in
order of arrival.

An executor with a single thread runs the tasks and calls of the program in this way.
-/
namespace Muster

/-! ## Held commands -/

namespace Stage

/-- The gate at which a call stands, with the kind and key of its command. -/
def gate? (setup : Setup) : Stage → Option (Gate × Method × String)
  | writing e g =>
    match e.kind with
    | .register => some (g, .setField, setup.config.ownKey)
    | .unregister => some (g, .deleteField, setup.config.ownKey)
  | announcing _ g => some (g, .publish, setup.config.ownKey)
  | reading load g => some (g, .readFields, registryKey load.cluster)
  | replied load _ g => some (g, .readReply, registryKey load.cluster)
  | _ => none

end Stage

namespace Position

def gate? (setup : Setup) (cluster : String) : Position → Option (Gate × Method × String)
  | opening g => some (g, .subscribe, registryKey cluster)
  | calling _ _ _ (.reading g) _ => some (g, .readFields, registryKey cluster)
  | calling _ _ _ (.replied _ g) _ => some (g, .readReply, registryKey cluster)
  | calling _ _ _ (.awaiting _ _ stage _ _) _ => stage.gate? setup
  | _ => none

end Position

namespace World

/-- The kind and key of the command with which an actor is held up. -/
def heldAt? (setup : Setup) (w : World) (a : Actor) : Option (Method × String) :=
  let gate? := match a with
    | .task id => (w.tasks[id]?).bind fun t => t.position.gate? setup t.cluster
    | .call id => (w.calls.get? id).bind fun stage => stage.gate? setup
  match gate? with
  | some (.held, m, key) => some (m, key)
  | _ => none

/-- An actor has nothing left to do. -/
def isDone (w : World) : Actor → Bool
  | .task id => w.hasEnded id
  | .call id => !w.calls.contains id

end World

/-! ## Running -/

structure Schedule where
  world : World
  /-- Those that can go on, in the order in which they became able to. -/
  ready : List Actor := []
  /-- Those that wait, in the order in which they began to. -/
  waiting : List Actor := []
  /-- How many tasks have been scheduled. -/
  known : Nat := 0

namespace Schedule

/-- Takes over a new state: those that it woke, then the tasks that it started, become ready. -/
def adopt (setup : Setup) (s : Schedule) (w : World) : Schedule :=
  let (woken, waiting) := s.waiting.partition fun a => (w.step setup a).isSome
  let started := ((List.range w.tasks.length).drop s.known).map Actor.task
  { world := w, ready := s.ready ++ woken ++ started, waiting, known := w.tasks.length }

/-- An actor stops running: it waits, if it is not done. -/
def park (setup : Setup) (s : Schedule) (a : Actor) : Schedule :=
  if s.world.isDone a then s
  else { s with waiting := s.waiting ++ [a] }.adopt setup s.world

/-- An actor that is running goes on until it has to wait. -/
def run (setup : Setup) (a : Actor) : Nat → Schedule → Schedule
  | 0, s => s.park setup a
  | fuel + 1, s =>
    match s.world.advance setup a with
    | none => s.park setup a
    | some w => run setup a fuel (s.adopt setup w)

/-- How many steps one actor may take at a time, and how many turns there may be. Only a schedule
that would never come to rest reaches it. -/
def patience : Nat := 100000

/-- An actor that became able to go on gets its turn. -/
def turn (setup : Setup) (s : Schedule) (a : Actor) : Schedule :=
  match s.world.step setup a with
  | none => s.park setup a
  | some w => run setup a patience (s.adopt setup w)

/-- Everybody runs until all wait. -/
def settleWithin (setup : Setup) : Nat → Schedule → Schedule
  | 0, s => s
  | fuel + 1, s =>
    match s.ready with
    | [] => s
    | a :: rest => settleWithin setup fuel ({ s with ready := rest }.turn setup a)

def settle (setup : Setup) (s : Schedule) : Schedule := settleWithin setup patience s

/-- Those held up with a kind of command, by key and then in order of arrival. -/
def held (setup : Setup) (s : Schedule) (m : Method) : List Actor :=
  let found := s.waiting.filterMap fun a =>
    match s.world.heldAt? setup a with
    | some (m', key) => if m' = m then some (key, a) else none
    | none => none
  (found.mergeSort fun a b => a.1 ≤ b.1).map (·.2)

/-- Lets the held commands of a kind through, one at a time. -/
def release (setup : Setup) (s : Schedule) (m : Method) : Schedule :=
  let s := { s with world := { s.world with holding := s.world.holding.erase m } }
  (s.held setup m).foldl (fun s a =>
    match s.world.heldAt? setup a with
    | some (m', _) =>
      if m' = m then (s.adopt setup (s.world.clear a)).settle setup else s
    | none => s) s

/-- Lets time pass. Streams are opened only after everybody has come to rest, so that no task
makes two attempts: until then a call holds up whoever opens one. -/
def elapse (setup : Setup) (s : Schedule) (id nanos : Nat) : Schedule :=
  let holds := Method.subscribe ∈ s.world.holding
  let w := s.world.ask setup id (.hold .subscribe)
  let s := (s.adopt setup { w with clock := w.clock + nanos }).settle setup
  if holds then s else s.release setup .subscribe

/-- Begins a call and runs it until it has to wait. -/
def ask (setup : Setup) (s : Schedule) (id : Nat) (a : Action) : Schedule :=
  let s := s.adopt setup (s.world.ask setup id a)
  if s.world.isDone (.call id) then s else run setup (.call id) patience s

/-! ## Scenarios -/

inductive Command where
  | act (a : Action)
  | elapse (nanos : Nat)
  | release (m : Method)
  /-- Nothing beyond what follows every command. -/
  | rest
deriving Repr

/-- What is seen of one command: its answer unless it waits, what the store and the listeners
saw meanwhile, earlier calls that finished, counters that changed, and the statuses. -/
structure Report where
  answer : Option Answer
  log : List Mark
  done : List (Nat × Answer)
  counters : List (Counter × Nat)
  statuses : List (String × Option Status)

/-- Marks of what the store and the user listeners see. -/
def isSeen : Mark → Bool
  | .stored _ _ _ | .doing _ _ | .did _ _ _ => true
  | .called _ (.user _) _ => true
  | _ => false

/-- Carries out a command; `settles` says whether everybody runs afterwards. -/
def carryOut (setup : Setup) (s : Schedule) (id : Nat) (settles : Bool) : Command → Schedule
  | .act a =>
    let s := s.ask setup id a
    if settles then s.settle setup else s
  | .elapse nanos => s.elapse setup id nanos
  | .release m => s.release setup m
  | .rest => s.settle setup

/-- Carries out the `id`-th command and reports on it. -/
def play (setup : Setup) (clusters : List String) (s : Schedule) (id : Nat) (settles : Bool)
    (c : Command) : Report × Schedule :=
  let after := s.carryOut setup id settles c
  let w := after.world
  let marks := (w.trace.take (w.trace.length - s.world.trace.length)).reverse
  let answers := marks.filterMap fun m =>
    match m with
    | .answered call a => some (call, a)
    | _ => none
  let own := match c with
    | .act _ => (answers.find? fun p => p.1 = id).map (·.2)
    | _ => some .done
  ({ answer := own
     log := marks.filter isSeen
     done := answers.filter fun p => p.1 ≠ id
     counters := s.world.counters.changed w.counters
     statuses := clusters.map fun c => (c, w.status? c) }, after)

end Schedule

end Muster
