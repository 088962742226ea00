import Muster.Fault
import Muster.Store.Channel
import Muster.Table

/-!
# The store in memory

Hashes and channels of one process. During an outage every command fails and has no effect; the
streams that are open stay open.

| here | in the program, `MemoryStore` |
| --- | --- |
| `new`, `usual` | `with_channel_capacity`, `new` |
| `setUnavailable`, `attempt` | `set_unavailable`, `check_available` |
| `setField`, `deleteField`, `fields` | `hash_set`, `hash_delete`, `hash_get_all` |
| `publish`, `subscribe` | `publish`, `subscribe` |
| `disconnect` | `disconnect_subscribers` |
| `subscribers`, `opened` | `subscriber_count`, `subscriptions_opened` |
| `next`, `close`, `lagFault` | the stream that `subscribe` returns, read or dropped |
-/
namespace Muster

structure Memory where
  /-- The capacity of new channels. -/
  capacity : Nat
  hashes : Table String (Table String String) := {}
  channels : Table String Channel := {}
  /-- The fault of every command, while there is an outage. -/
  outage : Option Fault := none
  /-- How many streams were ever opened; the next one has this number. -/
  opened : Nat := 0
deriving Repr

namespace Memory

/-- A store whose channels keep at least `capacity` items, a power of two of them. -/
def new (capacity : Nat) : Memory := { capacity := (max capacity 1).nextPowerOfTwo }

/-- The usual store. -/
def usual : Memory := new 1024

/-- The fault of a store that was made unavailable. -/
def down : Fault := .transport "memory store unavailable"

/-- The store made unavailable, or available again. -/
def setUnavailable (s : Memory) (value : Bool) : Memory :=
  { s with outage := if value then some down else none }

def hash (s : Memory) (key : String) : Table String String := (s.hashes.get? key).getD {}

/-- Lets a command through unless there is an outage. -/
def attempt {α : Type} (s : Memory) (a : α) : Except Fault α :=
  match s.outage with
  | some f => .error f
  | none => .ok a

/-- All items that were sent on a channel since its first stream was opened, oldest first. -/
def log (s : Memory) (key : String) : List Item := ((s.channels.get? key).map (·.log)).getD []

/-- The hash without the check, for those who look at the store from outside. -/
def put (s : Memory) (key field value : String) : Memory :=
  { s with hashes := s.hashes.insert key ((s.hash key).insert field value) }

def setField (s : Memory) (key field value : String) : Except Fault Memory :=
  s.attempt (s.put key field value)

/-- Deletes a field; answers whether there was one. -/
def deleteField (s : Memory) (key field : String) : Except Fault (Bool × Memory) :=
  s.attempt ((s.hash key).contains field,
    { s with hashes := s.hashes.modify key fun h => h.erase field })

def fields (s : Memory) (key : String) : Except Fault (List (String × String)) :=
  s.attempt (s.hash key).entries

/-- The streams open on a channel. -/
def subscribers (s : Memory) (key : String) : Nat :=
  match s.channels.get? key with
  | some c => c.streams.length
  | none => 0

def send (s : Memory) (key : String) (i : Item) : Memory :=
  { s with channels := s.channels.modify key fun c => c.send i }

/-- Publishes a message; answers how many streams it was sent to. -/
def publish (s : Memory) (key message : String) : Except Fault (Nat × Memory) :=
  s.attempt (s.subscribers key, s.send key (.payload message))

/-- Ends every stream open on a channel; answers how many there are. -/
def disconnect (s : Memory) (key : String) : Nat × Memory :=
  (s.subscribers key, s.send key .disconnect)

/-- Opens a stream; answers its number. -/
def subscribe (s : Memory) (key : String) : Except Fault (Nat × Memory) :=
  let c := (s.channels.get? key).getD { capacity := s.capacity }
  s.attempt (s.opened,
    { s with channels := s.channels.insert key (c.join s.opened), opened := s.opened + 1 })

/-- Reads the next item of a stream. -/
def next (s : Memory) (key : String) (stream : Nat) : Reading × Memory :=
  match s.channels.get? key with
  | none => (.ended, s)
  | some c =>
    let (r, c) := c.next stream
    (r, { s with channels := s.channels.insert key c })

/-- Closes a stream. -/
def close (s : Memory) (key : String) (stream : Nat) : Memory :=
  { s with channels := s.channels.modify key fun c => c.leave stream }

/-- The text of a lag. -/
def lagFault (count : Nat) : Fault :=
  .transport ("subscriber lagged behind by " ++ toString count ++ " messages")

end Memory

end Muster
