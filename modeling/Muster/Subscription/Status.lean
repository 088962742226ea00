/-!
# Subscription status

Where a cluster's subscription stands, and the slot through which its tasks say so. Every task
that is started opens a new generation of the slot; only the newest generation may write. The
version counts the writes, so that one who waits for a change knows what was already seen.

| here | in the program |
| --- | --- |
| `Status` | `SubscriptionStatus` |
| `isLive`, `isTerminal` | `is_live`, `is_terminal` |
| `Slot` | `StatusSlot`; the version is that of the channel which `watch_status` subscribes to |
| `begin`, `publish` | `begin`, `publish` |
-/
namespace Muster

inductive Status where
  /-- A task was started; its subscription is not established yet. -/
  | starting
  /-- Messages are being received. -/
  | active
  /-- The subscription dropped and will be opened again. -/
  | reconnecting
  /-- The task ended on a fault. -/
  | failed
  /-- The task was cancelled. -/
  | stopped
deriving DecidableEq, Repr

namespace Status

def text : Status → String
  | starting => "starting"
  | active => "active"
  | reconnecting => "reconnecting"
  | failed => "failed"
  | stopped => "stopped"

def all : List Status := [starting, active, reconnecting, failed, stopped]

/-- The cache of the cluster is being kept fresh. -/
def isLive (s : Status) : Bool := s == active

/-- The task has ended. -/
def isTerminal (s : Status) : Bool := s == failed || s == stopped

end Status

structure Slot where
  generation : Nat := 0
  status : Status := .starting
  version : Nat := 0
deriving DecidableEq, Repr, Inhabited

namespace Slot

/-- Opens a new generation. -/
def begin (s : Slot) : Slot := ⟨s.generation + 1, .starting, s.version + 1⟩

/-- Writes a status, unless the generation was superseded. -/
def publish (s : Slot) (generation : Nat) (status : Status) : Slot :=
  if s.generation = generation then ⟨s.generation, status, s.version + 1⟩ else s

end Slot

end Muster
