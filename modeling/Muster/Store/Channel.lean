/-!
# Channels

A channel hands every item that is sent to every stream that is open. Only the newest items can
be read, up to its capacity; a stream that falls further behind loses the older ones, is told how
many, and goes on with the oldest item left. A marker among the items ends the streams that reach
it.

| here | in the program |
| --- | --- |
| `Item` | `ChannelMessage` |
| `Channel` | the broadcast channel that `sender` of `MemoryStore` keeps by name |
| `next` | the stream that `subscribe` of `MemoryStore` returns, when it is read |
-/
namespace Muster

inductive Item where
  | payload (message : String)
  /-- The connection of the stream drops here. -/
  | disconnect
deriving DecidableEq, Repr

structure Channel where
  capacity : Nat
  /-- All items that were sent, oldest first. -/
  log : List Item := []
  /-- The open streams and the index of the item that each reads next. -/
  streams : List (Nat × Nat) := []
deriving Repr

/-- What a stream yields when it is read. -/
inductive Reading where
  /-- There is nothing to read yet. -/
  | pending
  | message (text : String)
  /-- So many items were lost. -/
  | lagged (count : Nat)
  | ended
deriving DecidableEq, Repr

namespace Channel

/-- The index of the oldest item that can still be read. -/
def oldest (c : Channel) : Nat := c.log.length - c.capacity

def position? (c : Channel) (stream : Nat) : Option Nat :=
  (c.streams.find? fun p => p.1 = stream).map (·.2)

/-- Sends an item to the open streams. -/
def send (c : Channel) (i : Item) : Channel := { c with log := c.log ++ [i] }

/-- Opens a stream at the end. -/
def join (c : Channel) (stream : Nat) : Channel :=
  { c with streams := c.streams ++ [(stream, c.log.length)] }

def leave (c : Channel) (stream : Nat) : Channel :=
  { c with streams := c.streams.filter fun p => p.1 ≠ stream }

def moveTo (c : Channel) (stream position : Nat) : Channel :=
  { c with streams := c.streams.map fun p => if p.1 = stream then (p.1, position) else p }

/-- Reads the next item of a stream. -/
def next (c : Channel) (stream : Nat) : Reading × Channel :=
  match c.position? stream with
  | none => (.ended, c)
  | some n =>
    if n < c.oldest then (.lagged (c.oldest - n), c.moveTo stream c.oldest)
    else
      match c.log[n]? with
      | none => (.pending, c)
      | some (.payload m) => (.message m, c.moveTo stream (n + 1))
      | some .disconnect => (.ended, c.leave stream)

end Channel

end Muster
