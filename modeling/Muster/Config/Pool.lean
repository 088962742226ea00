import Muster.Config.Source

/-!
# Pool settings

How many store connections there may be, how long a call waits for one, and when a connection is
tested or dropped. Unset numbers have defaults; the least number of idle connections never
exceeds the greatest.

| here | in the program, `PoolConfig` |
| --- | --- |
| `ofSource` | `from_source` |
| `effectiveMaxTotal`, `effectiveMaxIdle` | `effective_max_total`, `effective_max_idle` |
| `effectiveMinIdle` | `effective_min_idle` |
| `effectiveTestsPerEvictionRun` | `effective_tests_per_eviction_run` |
-/
namespace Muster

structure PoolConfig where
  /-- Test a connection before it is handed out. -/
  testOnBorrow : Bool := true
  /-- Test a connection before it becomes idle again. -/
  testOnReturn : Bool := false
  /-- Test the connections that an eviction run examines. -/
  testWhileIdle : Bool := false
  maxIdle : Option Nat := none
  minIdle : Option Nat := none
  /-- Connections handed out at once, subscriptions included. -/
  maxTotal : Option Nat := none
  maxWait : Option Duration := none
  testsPerEvictionRun : Option Nat := none
  /-- The time between eviction runs; unset means none. -/
  evictionInterval : Option Duration := none
  /-- The idle time after which a connection is dropped. -/
  minEvictableIdle : Option Duration := none
deriving DecidableEq, Repr

namespace PoolConfig

def effectiveMaxTotal (c : PoolConfig) : Nat := c.maxTotal.getD 8

def effectiveMaxIdle (c : PoolConfig) : Nat := c.maxIdle.getD 8

def effectiveMinIdle (c : PoolConfig) : Nat := min (c.minIdle.getD 0) c.effectiveMaxIdle

def effectiveTestsPerEvictionRun (c : PoolConfig) : Nat := c.testsPerEvictionRun.getD 3

/-- Reads the pool settings. The newer name of the total limit goes before the older one, but both
are read; the wait limit is looked for under two names, the second only where the first is
unset. -/
def ofSource (src : Source) : Except Fault PoolConfig := do
  let total ← src.count? "max.total"
  let active ← src.count? "max.active"
  let wait ← src.millis? "max.wait"
  let maxWait ← match wait with
    | some d => pure (some d)
    | none => src.millis? "timeout"
  let testOnBorrow ← src.flag "test.on.borrow" true
  let testOnReturn ← src.flag "test.on.return" false
  let testWhileIdle ← src.flag "test.while.idle" false
  let maxIdle ← src.narrowCount? "max.idle" 64
  let minIdle ← src.narrowCount? "min.idle" 64
  let tests ← src.narrowCount? "num.tests.per.eviction.run" 32
  let interval ← src.millis? "time.between.eviction.runs.millis"
  let evictable ← src.millis? "min.evictable.idle.time.millis"
  pure {
    testOnBorrow, testOnReturn, testWhileIdle, maxIdle, minIdle, maxWait
    maxTotal := total <|> active
    testsPerEvictionRun := tests
    evictionInterval := interval
    minEvictableIdle := evictable }

end PoolConfig

end Muster
