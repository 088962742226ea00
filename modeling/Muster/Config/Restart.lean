import Muster.Binary64
import Muster.Config.Source

/-!
# Restart policy

How long a dropped subscription waits before it is opened again. The interval grows by half after
each attempt until it reaches the longest one; a subscription that became active starts again
from the first.

| here | in the program |
| --- | --- |
| `RestartPolicy.ofSource` | `from_source` of `RestartPolicy` |
| `Backoff.ofPolicy` | `backoff` |
| `Backoff.wait`, `grownInterval` | `next_backoff` of the exponential backoff |
| `Backoff.reset` | its `reset` |
-/
namespace Muster

structure RestartPolicy where
  /-- The first interval. -/
  initial : Duration := Duration.ofMillis 500
  /-- The longest interval. -/
  longest : Duration := Duration.ofMillis 30000
  /-- Failed attempts in a row before giving up; zero means never. -/
  maxAttempts : Nat := 0
deriving DecidableEq, Repr

namespace RestartPolicy

/-- Reads the restart settings. The longest interval is at least the first. -/
def ofSource (src : Source) : Except Fault RestartPolicy := do
  let defaults : RestartPolicy := {}
  let initial := (← src.millis? "restart.initial.millis").getD defaults.initial
  let longest := (← src.millis? "restart.max.millis").getD defaults.longest
  let attempts ← src.narrowCount? "restart.max.attempts" 32
  pure {
    initial
    longest := ⟨max longest.nanos initial.nanos⟩
    maxAttempts := attempts.getD defaults.maxAttempts }

end RestartPolicy

/-- The interval after `nanos`: the longest one once growing by half would reach it, else half as
long again, in binary64 arithmetic and cut to whole nanoseconds. -/
def grownInterval (longest nanos : Nat) : Nat :=
  let next? := do
    let current ← Binary64.ofQuotient? nanos 1
    let limit ← (← Binary64.ofQuotient? longest 1).scale? 2 3
    if limit.le current then none
    else (← current.scale? 3 2).floor
  next?.getD longest

/-- The state of a restart policy. -/
structure Backoff where
  policy : RestartPolicy
  /-- The interval that the next wait is drawn around. -/
  current : Duration
  /-- How long after a reset there are waits, if that is limited. -/
  patience : Option Duration
deriving DecidableEq, Repr

namespace Backoff

/-- A policy sets no limit to the time in all. -/
def ofPolicy (p : RestartPolicy) : Backoff := ⟨p, p.initial, none⟩

def reset (b : Backoff) : Backoff := { b with current := b.policy.initial }

/-- The interval to wait now, and the state after it. -/
def next (b : Backoff) : Duration × Backoff :=
  (b.current, { b with current := ⟨grownInterval b.policy.longest.nanos b.current.nanos⟩ })

/-- The wait that is drawn around the current interval when `elapsed` nanoseconds have passed since
the last reset, and the state after it. There is none that would end after the limit. -/
def wait (b : Backoff) (elapsed : Nat) (draw : Duration → Nat) : Option Nat × Backoff :=
  match b.patience with
  | none => (some (draw b.current), b.next.2)
  | some limit =>
    if limit.nanos < elapsed then (none, b)
    else if elapsed + draw b.current ≤ limit.nanos then (some (draw b.current), b.next.2)
    else (none, b.next.2)

section

variable {b b' : Backoff} {elapsed n : Nat} {draw : Duration → Nat}

theorem of_wait_eq_some (h : b.wait elapsed draw = (some n, b')) :
    n = draw b.next.1 ∧ b' = b.next.2 := by
  unfold wait at h
  split at h
  · cases h
    exact ⟨rfl, rfl⟩
  · split at h
    · cases h
    · split at h
      · cases h
        exact ⟨rfl, rfl⟩
      · cases h

/-- Only a limit makes waits end. -/
theorem patience_of_wait_eq_none (h : b.wait elapsed draw = (none, b')) : b.patience ≠ none := by
  intro hnone
  simp [wait, hnone] at h

end

end Backoff

end Muster
