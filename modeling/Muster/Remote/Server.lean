import Muster.Remote.Wire

/-!
# Store servers

A server as its clients see it: it opens connections while it accepts any, executes requests, and
passes what is published to the connections that subscribed. It records every request that it
saw. Replies may be laid out in advance for the next requests of a name.

The program has no part of it: this is the store server at the other end of a connection.
-/
namespace Muster

structure Server where
  /-- New connections are accepted. -/
  accepts : Bool := true
  password : Option String := none
  /-- How many connections were opened; they are numbered from one. -/
  opened : Nat := 0
  /-- The open connections. -/
  live : List Nat := []
  hashes : Table String (Table String String) := {}
  /-- The connections subscribed to a channel. -/
  audience : Table String (List Nat) := {}
  /-- Payloads on their way to a connection, oldest first. -/
  inbox : Table Nat (List (List UInt8)) := {}
  /-- The replies laid out for the requests of a name. -/
  laid : Table String (List Reply) := {}
  /-- Connections opened and requests seen, newest first. -/
  log : List (Nat × List String) := []
deriving Repr

namespace Server

/-- Opens a connection, or refuses. -/
def connect (s : Server) : Option (Nat × Server) :=
  if s.accepts then
    let conn := s.opened + 1
    some (conn, { s with
      opened := conn, live := s.live ++ [conn], log := (conn, ["open"]) :: s.log })
  else none

/-- Closes a connection. What is on its way to it still arrives. -/
def close (s : Server) (conn : Nat) : Server :=
  { s with
    live := s.live.filter (· ≠ conn)
    audience := ⟨s.audience.entries.map fun p => (p.1, p.2.filter (· ≠ conn))⟩ }

/-- Closes all connections. -/
def closeAll (s : Server) : Server := { s with live := [], audience := {} }

/-- The connections that hear a channel. -/
def listening (s : Server) (channel : String) : List Nat := (s.audience.get? channel).getD []

/-- Sends a payload to all that hear a channel. -/
def send (s : Server) (channel : String) (payload : List UInt8) : Server :=
  { s with inbox := (s.listening channel).foldl (fun inbox conn =>
      inbox.insert conn ((inbox.get? conn).getD [] ++ [payload])) s.inbox }

/-- Takes the next payload of a connection. -/
def receive? (s : Server) (conn : Nat) : Option (List UInt8 × Server) :=
  match s.inbox.get? conn with
  | some (payload :: rest) => some (payload, { s with inbox := s.inbox.insert conn rest })
  | _ => none

def hash (s : Server) (key : String) : Table String String := (s.hashes.get? key).getD {}

/-- Executes a request. -/
def execute (s : Server) (conn : Nat) : Request → Reply × Server
  | .auth password => (if s.password = some password then .status else .error, s)
  | .select db => (if 0 ≤ db then .status else .error, s)
  | .ping => (.status, s)
  | .command (.setField k f v) =>
    (.integer (if (s.hash k).contains f then 0 else 1),
      { s with hashes := s.hashes.insert k ((s.hash k).insert f v) })
  | .command (.deleteField k f) =>
    (.integer (if (s.hash k).contains f then 1 else 0),
      { s with hashes := s.hashes.modify k fun h => h.erase f })
  | .command (.readFields k) => (.fields (s.hash k).entries, s)
  | .command (.publish k m) => (.integer (s.listening k).length, s.send k (Text.bytes m))
  | .command (.subscribe k) =>
    (.status, { s with audience := s.audience.insert k (s.listening k ++ [conn]) })

/-- A request arrives on a connection: it meets a reply that was laid out, or is executed. On a
connection that is gone it does not arrive. -/
def request (s : Server) (conn : Nat) (r : Request) : Reply × Server :=
  if conn ∈ s.live then
    let s := { s with log := (conn, r.words) :: s.log }
    match s.laid.get? r.name with
    | some (reply :: rest) =>
      let s := { s with laid := s.laid.insert r.name rest }
      (reply, if reply = .lost then s.close conn else s)
    | _ => s.execute conn r
  else (.lost, s)

/-- Lays replies out for the next requests of a name. -/
def lay (s : Server) (name : String) (times : Nat) (reply : Reply) : Server :=
  { s with laid :=
      s.laid.insert name ((s.laid.get? name).getD [] ++ List.replicate times reply) }

end Server

end Muster
