/-!
# Counters

What a client counts about itself. Counters only grow.

| here | in the program, `RegistryStats` |
| --- | --- |
| `Counter` | its fields |
| `Counters` | `RegistryStats`, and `RegistryStatsSnapshot` when it is read |
| `incr` | `incr` |
-/
namespace Muster

inductive Counter where
  | registrations
  | unregistrations
  /-- Lookups, whether they found a cluster or not. -/
  | lookups
  /-- Messages taken from channels. -/
  | eventsReceived
  /-- Events applied to a cache. -/
  | eventsApplied
  /-- Listener failures that did not end a subscription. -/
  | listenerFaults
  /-- Messages that a task or a listener rejected as outside the grammar. -/
  | protocolFaults
  | subscriptionStarts
  | subscriptionRestarts
  /-- Tasks that ended without being cancelled. -/
  | subscriptionFailures
deriving DecidableEq, Repr

namespace Counter

def all : List Counter :=
  [registrations, unregistrations, lookups, eventsReceived, eventsApplied, listenerFaults,
   protocolFaults, subscriptionStarts, subscriptionRestarts, subscriptionFailures]

def name : Counter → String
  | registrations => "registrations"
  | unregistrations => "unregistrations"
  | lookups => "lookups"
  | eventsReceived => "events_received"
  | eventsApplied => "events_applied"
  | listenerFaults => "listener_faults"
  | protocolFaults => "protocol_faults"
  | subscriptionStarts => "subscription_starts"
  | subscriptionRestarts => "subscription_restarts"
  | subscriptionFailures => "subscription_failures"

end Counter

structure Counters where
  registrations : Nat := 0
  unregistrations : Nat := 0
  lookups : Nat := 0
  eventsReceived : Nat := 0
  eventsApplied : Nat := 0
  listenerFaults : Nat := 0
  protocolFaults : Nat := 0
  subscriptionStarts : Nat := 0
  subscriptionRestarts : Nat := 0
  subscriptionFailures : Nat := 0
deriving DecidableEq, Repr, Inhabited

namespace Counters

def get (c : Counters) : Counter → Nat
  | .registrations => c.registrations
  | .unregistrations => c.unregistrations
  | .lookups => c.lookups
  | .eventsReceived => c.eventsReceived
  | .eventsApplied => c.eventsApplied
  | .listenerFaults => c.listenerFaults
  | .protocolFaults => c.protocolFaults
  | .subscriptionStarts => c.subscriptionStarts
  | .subscriptionRestarts => c.subscriptionRestarts
  | .subscriptionFailures => c.subscriptionFailures

def incr (c : Counters) : Counter → Counters
  | .registrations => { c with registrations := c.registrations + 1 }
  | .unregistrations => { c with unregistrations := c.unregistrations + 1 }
  | .lookups => { c with lookups := c.lookups + 1 }
  | .eventsReceived => { c with eventsReceived := c.eventsReceived + 1 }
  | .eventsApplied => { c with eventsApplied := c.eventsApplied + 1 }
  | .listenerFaults => { c with listenerFaults := c.listenerFaults + 1 }
  | .protocolFaults => { c with protocolFaults := c.protocolFaults + 1 }
  | .subscriptionStarts => { c with subscriptionStarts := c.subscriptionStarts + 1 }
  | .subscriptionRestarts => { c with subscriptionRestarts := c.subscriptionRestarts + 1 }
  | .subscriptionFailures => { c with subscriptionFailures := c.subscriptionFailures + 1 }

theorem get_incr (c : Counters) (k k' : Counter) :
    (c.incr k).get k' = if k = k' then c.get k' + 1 else c.get k' := by
  cases k <;> cases k' <;> rfl

/-- The counters that differ between two readings, with their later values. -/
def changed (before after : Counters) : List (Counter × Nat) :=
  (Counter.all.filter fun k => before.get k ≠ after.get k).map fun k => (k, after.get k)

end Counters

end Muster
