import Muster.Client.Tasks

/-!
# Fleets

Clients that share one store, and what may happen to them. A move belongs to one client: an actor
takes its next step, a call begins or is dropped, a held command goes on, or time passes. Any
order of moves is a run; a schedule picks one of them. While one client moves, the others stand
still, but they find the store as it was left.

In the program a fleet is several instances of `RegistryClient` over one `MemoryStore`; a move is
what its executor runs between two waits, or what a caller does.
-/
namespace Muster

/-- What may happen next to a client. -/
inductive Move where
  /-- An actor goes on, a task after a look at its cancellation. -/
  | step (actor : Actor)
  /-- A call begins. -/
  | ask (call : Nat) (action : Action)
  /-- A call in progress is dropped. -/
  | drop (call : Nat)
  /-- The command of an actor is let through its gate. -/
  | clear (actor : Actor)
  /-- Commands of a kind are held up no longer. -/
  | free (method : Method)
  | elapse (nanos : Nat)
deriving Repr

namespace World

/-- Makes a move, or says that it cannot be made. Calls in progress have different numbers. -/
def move (setup : Setup) (w : World) : Move → Option World
  | .step a => w.step setup a
  | .ask call a => if w.calls.contains call then none else some (w.ask setup call a)
  | .drop call => some (w.dropCall call)
  | .clear a => some (w.clear a)
  | .free m => some { w with holding := w.holding.erase m }
  | .elapse nanos => some { w with clock := w.clock + nanos }

end World

/-- Clients by number, and the store they share. -/
structure Fleet where
  store : Memory
  /-- The store in a client's world is the one that it saw last. -/
  worlds : List World

namespace Fleet

/-- A client as it finds the store. -/
def world? (f : Fleet) (i : Nat) : Option World :=
  (f.worlds[i]?).map fun w => { w with store := f.store }

/-- One client makes a move. -/
def move (setups : Nat → Setup) (f : Fleet) (i : Nat) (m : Move) : Option Fleet :=
  (f.world? i).bind fun w =>
    (w.move (setups i) m).map fun w' => { store := w'.store, worlds := f.worlds.set i w' }

/-- New clients on a store. -/
def start (store : Memory) (clients : Nat) : Fleet :=
  { store, worlds := List.replicate clients { store } }

/-- The states that moves lead to. -/
inductive Reaches (setups : Nat → Setup) (f : Fleet) : Fleet → Prop where
  | refl : Reaches setups f f
  | move {g h : Fleet} {i : Nat} {m : Move} (past : Reaches setups f g)
      (next : g.move setups i m = some h) : Reaches setups f h

/-- The states of clients that began on a store without streams. -/
def Reachable (setups : Nat → Setup) (f : Fleet) : Prop :=
  ∃ store clients, store.channels.entries = [] ∧ Reaches setups (start store clients) f

end Fleet

end Muster
