import Muster.Config
import Muster.Counters
import Muster.Membership
import Muster.Store.Memory
import Muster.Subscription.Status

/-!
# Actions

What can be asked of a client or done to its store, the answers, and what a client is set up
with: its configuration, the source of its cluster names, how each user listener behaves, how a
payload on a channel reads, and how long the waits between attempts turn out.

| here | in the program |
| --- | --- |
| `Action` before `putField` | the methods of `RegistryClient` and `SubscriptionManager` |
| `Action` from `putField` on | the methods of `MemoryStore`, and what makes commands fail or wait |
| `StoreCall` | the methods of the port `RegistryStore` |
| `Hook` | `on_subscribed` and `on_event` of the port `EventListener` |
| `Listener` | a listener by `same_listener`; `updater` is a `MembershipUpdater` |
| `View` | `MembershipView` |
| `Setup.source` | the port `ConfigSource` |
| `Setup.screen` | `payload_text` |
-/
namespace Muster

/-- A listener by its identity: one that a user attached, or the updater that keeps the cache of
a cluster, numbered in order of creation. -/
inductive Listener where
  | user (name : String)
  | updater (cluster : String) (number : Nat)
deriving DecidableEq, Repr

/-- Who runs: a subscription task, or a call made on the client. -/
inductive Actor where
  | task (id : Nat)
  | call (id : Nat)
deriving DecidableEq, Repr

/-- The places where a command to the store can be held up: on its way there, and for a reading of
a hash also on its way back. -/
inductive Method where
  | setField
  | deleteField
  | readFields
  | readReply
  | publish
  | subscribe
deriving DecidableEq, Repr

/-- A command to the store. -/
inductive StoreCall where
  | setField (key field value : String)
  | deleteField (key field : String)
  | readFields (key : String)
  | publish (key message : String)
  | subscribe (key : String)
deriving DecidableEq, Repr

namespace StoreCall

def method : StoreCall → Method
  | setField _ _ _ => .setField
  | deleteField _ _ => .deleteField
  | readFields _ => .readFields
  | publish _ _ => .publish
  | subscribe _ => .subscribe

def key : StoreCall → String
  | setField k _ _ | deleteField k _ | readFields k | publish k _ | subscribe k => k

end StoreCall

/-- Why a task calls a listener. -/
inductive Hook where
  /-- The listener has to read again what it keeps. -/
  | sync
  | event (message : String)
deriving DecidableEq, Repr

inductive Action where
  | register (address : String)
  | unregister (address : String)
  /-- The members of the cluster that a key maps to. -/
  | lookup (key : String)
  /-- The members, and how fresh they are. -/
  | view (key : String)
  | attach (cluster listener : String)
  /-- Detaches a listener; a guarded call is refused after a shutdown. -/
  | detach (cluster listener : String) (guarded : Bool)
  /-- Waits until the subscription is established or has ended. -/
  | awaitSettled (cluster : String)
  /-- Waits until the first attempt to subscribe has an outcome. -/
  | awaitStarted (cluster : String)
  | shutdown
  | isShutdown
  | activeClusters
  | listenerCount (cluster : String)
  | readCounters
  | configuration
  | describeClient
  | describeSubscriptions
  /-- The following act on the store from outside. -/
  | putField (key field value : String)
  | dropField (key field : String)
  | readHash (key : String)
  | send (key : String) (messages : List String)
  | disconnect (key : String)
  | setUnavailable (value : Bool)
  | subscribers (key : String)
  /-- Lets the next commands of a kind fail. -/
  | inject (method : Method) (times : Nat) (fault : Fault)
  /-- Holds commands of a kind up from now on. -/
  | hold (method : Method)
deriving DecidableEq, Repr

/-- The members of a cluster and how fresh they are. -/
structure View where
  cluster : String
  /-- In ascending order. -/
  addresses : List Address
  status : Status
  /-- Some event was applied. -/
  touched : Bool
  /-- The cluster was loaded. -/
  loaded : Bool
deriving DecidableEq, Repr

/-- The set is not being kept up to date. -/
def View.stale (v : View) : Bool := !v.status.isLive

inductive Answer where
  | done
  | failed (fault : Fault)
  | truth (value : Bool)
  | number (value : Nat)
  | status (value : Option Status)
  | addresses (value : List Address)
  | view (value : View)
  | names (value : List String)
  | text (value : String)
  | identity (cluster identity : String)
  | fields (value : List (String × String))
  | subscribers (current opened : Nat)
  | counters (value : Counters)
deriving DecidableEq, Repr

/-- What a user listener does in one call: some actions, one after another, and then how it
returns. Each action has a label. -/
structure Behaviour where
  actions : List (String × Action) := []
  fault : Option Fault := none
deriving Repr

/-- What a client is set up with. -/
structure Setup where
  config : ClientConfig
  source : Source
  /-- The behaviour of a listener in its first, second, … call of a kind. -/
  behaviour : String → Hook → Nat → Behaviour := fun _ _ _ => {}
  /-- What a payload reads as. -/
  screen : String → Except Fault String := .ok
  /-- How long the n-th wait around an interval turns out, in nanoseconds. -/
  delay : Nat → Duration → Nat := fun _ d => d.nanos
  /-- How many nanoseconds have passed since the last reset of its policy when a task draws the n-th
  wait, by the clock of the process. -/
  elapsed : Nat → Nat := fun _ => 0

end Muster
