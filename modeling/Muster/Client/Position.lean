import Muster.Client.Action

/-!
# Positions

Where a call or a task stands between two of its steps. A command to the store stands at a gate:
it has just arrived, is held up, or was let through. Whatever an actor needs when it goes on is
part of its position, so that another actor may run in between.

| here | in the program |
| --- | --- |
| `Stage` | the places where a method of `RegistryClient` awaits |
| `Goal` | the conditions of `wait_until_settled` and `wait_while_starting` |
| `Position` | the places where `run` of `SubscriptionWorker` and what it calls await |
| `Pass` | the loops of `attempt`, `sync_joined` and `dispatch` that call listeners |
| `Task` | `SubscriptionWorker`, with the token and the wake-up of its `SubscriptionHandle` |
-/
namespace Muster

inductive Gate where
  | arriving
  | held
  | cleared
deriving DecidableEq, Repr

/-- A lookup under way. -/
structure Load where
  cluster : String
  /-- A view was asked for, not only the members. -/
  wantsView : Bool
deriving DecidableEq, Repr

/-- What someone who watches a status waits for. -/
inductive Goal where
  | settled
  | started
deriving DecidableEq, Repr

def Goal.met : Goal → Status → Bool
  | settled, s => s.isLive || s.isTerminal
  | started, s => s != .starting

/-- Where a call stands. -/
inductive Stage where
  /-- Before the change of the hash that a register or unregister call makes. -/
  | writing (event : Event) (gate : Gate)
  /-- Before the announcement of that change. -/
  | announcing (event : Event) (gate : Gate)
  /-- In the line of those who wait for another caller's load. -/
  | queued (load : Load)
  /-- Before the reading of the hash. -/
  | reading (load : Load) (gate : Gate)
  /-- The hash was read, the reply is on its way. -/
  | replied (load : Load) (fields : List (String × String)) (gate : Gate)
  /-- Waiting for the first attempt of the subscription. -/
  | starting (load : Load) (seen : Nat)
  | watching (cluster : String) (goal : Goal) (seen : Nat)
  /-- Waiting for a cancelled task to end. -/
  | joining (task : Nat)
  /-- Waiting for these tasks to end, one after another. -/
  | draining (tasks : List Nat)
deriving DecidableEq, Repr

/-- Lets the command of a call through its gate. -/
def Stage.clear : Stage → Stage
  | writing e _ => writing e .cleared
  | announcing e _ => announcing e .cleared
  | reading load _ => reading load .cleared
  | replied load fields _ => replied load fields .cleared
  | s => s

/-- Where a call of a listener stands. -/
inductive Callback where
  /-- An updater, before its reading of the hash. -/
  | reading (gate : Gate)
  /-- An updater, with the reply on its way. -/
  | replied (fields : List (String × String)) (gate : Gate)
  /-- A user listener before the next of its actions, with its outcome. -/
  | acting (name : String) (actions : List (String × Action)) (fault : Option Fault)
  /-- A user listener within one of its actions, with those that follow and its outcome. -/
  | awaiting (name label : String) (stage : Stage) (rest : List (String × Action))
    (fault : Option Fault)
deriving Repr

/-- For what a task calls its listeners. -/
inductive Pass where
  /-- The whole list, after subscribing. -/
  | full
  /-- Those that joined while the task was listening. -/
  | joined
  /-- Those that joined, before a message is delivered to an audience. -/
  | beforeDelivery (message : String) (audience : List Listener)
  | delivery (message : String)
deriving DecidableEq, Repr

def Pass.hook : Pass → Hook
  | delivery m => .event m
  | _ => .sync

/-- Where a task stands. -/
inductive Position where
  /-- Before opening a stream. -/
  | opening (gate : Gate)
  /-- Before calling the next listener of a pass. -/
  | passing (stream : Nat) (pass : Pass) (rest : List Listener)
  /-- Within the call of a listener. -/
  | calling (stream : Nat) (pass : Pass) (listener : Listener) (callback : Callback)
    (rest : List Listener)
  | listening (stream : Nat)
  /-- Until the next attempt is due. -/
  | waiting (due : Nat)
  | ended
deriving Repr

/-- The open stream of a task. -/
def Position.stream? : Position → Option Nat
  | passing s _ _ | calling s _ _ _ _ | listening s => some s
  | _ => none

/-- Lets the command of a task through its gate. -/
def Position.clear : Position → Position
  | opening _ => opening .cleared
  | calling s p l (.reading _) rest => calling s p l (.reading .cleared) rest
  | calling s p l (.replied fields _) rest => calling s p l (.replied fields .cleared) rest
  | calling s p l (.awaiting name label stage more fault) rest =>
    calling s p l (.awaiting name label stage.clear more fault) rest
  | p => p

/-- The background task of a cluster. -/
structure Task where
  cluster : String
  /-- The generation of the status slot that the task may write. -/
  generation : Nat
  backoff : Backoff
  cancelled : Bool := false
  /-- A listener joined and the task has not noticed yet. -/
  notified : Bool := false
  /-- Attempts that ended in a row since the task was last active. -/
  failures : Nat := 0
  position : Position := .opening .arriving
deriving Repr

def Task.isEnded (t : Task) : Bool :=
  match t.position with
  | .ended => true
  | _ => false

end Muster
