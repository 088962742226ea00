import Muster.Event
import Muster.Table

/-!
# Membership

What a client knows of one cluster: the set of its addresses, changed by single events and
replaced by whole snapshots, and a cell that makes sure that the first snapshot is loaded by one
caller at a time. Those that come while it is loading wait in line; if the load fails, the first
of them takes it over.

| here | in the program |
| --- | --- |
| `Membership` | `ClusterMembership` |
| `apply`, `changes` | `apply`, and the answer that it gives |
| `replace` | `replace` |
| `Cell` | the cell of `initialize`, with those who wait in it |
| `touched`, `Cell.isLoaded` | whether `last_event_at`, `initialized_at` answer a time |
| `addressesOf` | `addresses_from_snapshot` |
| `Caches.entry` | `entry` of `MembershipCache` |
-/
namespace Muster

/-- Whether something has been loaded, or who is loading it and who waits. -/
inductive Cell (α : Type) where
  | empty
  | loading (owner : α) (line : List α)
  | loaded
deriving Repr, DecidableEq

namespace Cell

variable {α : Type} [DecidableEq α]

def isLoaded : Cell α → Bool
  | loaded => true
  | _ => false

def owner? : Cell α → Option α
  | loading o _ => some o
  | _ => none

/-- Becomes the owner of an empty cell, or joins the line. -/
def enter (who : α) : Cell α → Cell α
  | empty => loading who []
  | loading o line => loading o (line ++ [who])
  | loaded => loaded

/-- The owner gives up: the first in line takes over. -/
def handOver : Cell α → Cell α
  | loading _ (next :: line) => loading next line
  | loading _ [] => empty
  | c => c

/-- Somebody leaves for good, as the owner or out of the line. -/
def leave (who : α) : Cell α → Cell α
  | loading o line =>
    if o = who then (loading o line).handOver else loading o (line.erase who)
  | c => c

end Cell

/-- The parsable fields of a hash. Other fields are stale data and are passed over. -/
def addressesOf (fields : List (String × String)) : List Address :=
  fields.filterMap fun p => Address.ofText? p.1

/-- The cached view of one cluster. `α` names callers. -/
structure Membership (α : Type) where
  /-- The members, each once. -/
  members : List Address := []
  /-- Some event has been applied. -/
  touched : Bool := false
  cell : Cell α := .empty
deriving Repr, Inhabited

namespace Membership

variable {α : Type}

def insertMember (a : Address) (as : List Address) : List Address :=
  if a ∈ as then as else as ++ [a]

/-- Applies an event. -/
def apply (m : Membership α) (e : Event) : Membership α :=
  let members := match e.kind with
    | .register => insertMember e.address m.members
    | .unregister => m.members.erase e.address
  { m with members, touched := true }

/-- Whether applying an event changes the set. -/
def changes (m : Membership α) (e : Event) : Bool :=
  match e.kind with
  | .register => !m.members.contains e.address
  | .unregister => m.members.contains e.address

/-- Replaces the set. -/
def replace (m : Membership α) (as : List Address) : Membership α :=
  { m with members := as.eraseDups }

end Membership

/-- The caches of a client. Entries are created on demand and never removed. -/
abbrev Caches (α : Type) := Table String (Membership α)

namespace Caches

variable {α : Type}

/-- The cache of a cluster, a new one if there is none. -/
def entry (cs : Caches α) (cluster : String) : Membership α := (cs.get? cluster).getD {}

/-- Changes the cache of a cluster, creating it if there is none. -/
def update (cs : Caches α) (cluster : String) (f : Membership α → Membership α) : Caches α :=
  cs.insert cluster (f (cs.entry cluster))

end Caches

end Muster
