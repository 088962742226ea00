import Muster.Client.Tasks

/-!
# Watching

The loop that prints the members of a cluster on every change. A listener of its own, the
notifier, passes every message on; the loop takes one message at a time, prints the event, asks
for the members again and prints them.

| here | in the program |
| --- | --- |
| `notifier`, `notified` | `ChangeNotifier` and the channel that its `on_event` sends to |
| `Watch.step` | one turn of the loop of `watch` |
| `Watch.shown?` | the view that `watch` printed last |
-/
namespace Muster.CommandLine

/-- The listener of a watch. -/
def notifier : String := "notifier"

/-- The messages that the notifier was called with, oldest first. -/
def notified (w : World) : List String :=
  (w.trace.filterMap fun m =>
    match m with
    | .called _ (.user l) (.event message) => if l = notifier then some message else none
    | _ => none).reverse

/-- The answer of a call that has finished. -/
def answerOf? (w : World) (id : Nat) : Option Answer :=
  w.trace.findSome? fun m =>
    match m with
    | .answered call a => if call = id then some a else none
    | _ => none

/-- Where the loop stands. -/
inductive Watch.Position where
  | waiting
  /-- Waiting for the answer to a call. -/
  | viewing (call : Nat)
  | ended (fault : Fault)
deriving DecidableEq, Repr

/-- What a watch prints. -/
inductive Watch.Output where
  | event (message : String)
  | view (view : View)
deriving DecidableEq, Repr

/-- A watch of a lookup key. -/
structure Watch where
  key : String
  world : World
  /-- How many messages of the notifier it has taken. -/
  taken : Nat := 0
  /-- The number of its next call. -/
  nextCall : Nat
  position : Watch.Position := .waiting
  /-- Oldest first. -/
  printed : List Watch.Output := []

namespace Watch

/-- The messages that it has still to take, oldest first. -/
def queue (w : Watch) : List String := (notified w.world).drop w.taken

/-- The members that it printed last. -/
def shown? (w : Watch) : Option View :=
  w.printed.reverse.findSome? fun o =>
    match o with
    | .view v => some v
    | .event _ => none

/-- Takes a message, or prints the answer to its call, or does nothing while it has to wait. A
message that is no event is not printed, but the members are. -/
def step (setup : Setup) (w : Watch) : Option Watch :=
  match w.position with
  | .waiting =>
    match w.queue with
    | [] => none
    | message :: _ =>
      let event := match Event.decode message with
        | .ok e => [Output.event e.encode]
        | .error _ => []
      some { w with
        world := w.world.ask setup w.nextCall (.view w.key)
        taken := w.taken + 1
        nextCall := w.nextCall + 1
        position := .viewing w.nextCall
        printed := w.printed ++ event }
  | .viewing call =>
    match answerOf? w.world call with
    | some (.view v) => some { w with position := .waiting, printed := w.printed ++ [.view v] }
    | some (.failed f) => some { w with position := .ended f }
    | _ => none
  | .ended _ => none

end Watch

end Muster.CommandLine
