import Muster.Config.Pool
import Muster.Fault

/-!
# The connection pool

A bounded number of permits, and the connections that are open and idle, oldest first. A caller
that wants to run a command takes a permit and then the youngest idle connection, or opens one;
afterwards it gives both back. A subscription opens a connection of its own and keeps its permit
as long as its stream is open. Now and then a caller first makes an eviction run: it examines the
oldest idle connections and opens new ones up to the least number.

A caller stands at a position until a signal from outside lets it go on. Everything between two
positions happens at once, and signals reach the callers in any order.

| here | in the program, `ConnectionProvider` unless another type is named |
| --- | --- |
| `ofConfig?` | `new` |
| `Idle` | `IdleConnection` |
| `enter` | the beginning of `acquire`, or of `subscribe` of `RedisStore` |
| position `queued`, signals `granted` and `expired` | `permit` |
| `lend`, `takeIdle` | `acquire` after `permit`, `take_idle` |
| `claimEviction?` | `eviction_due` |
| `evict`, `examine`, `restore`, `refill` | `evict`, cut where it awaits |
| `keep`, `leave`, position `returning` | `release` |
| `isEvictable` | `is_evictable` |
| positions `examining`, `testing`, `returning` | where `ping` is awaited |
| purpose `subscription` | `subscribe` of `RedisStore` and the stream that it returns |
-/
namespace Muster

/-- A connection that nobody uses. -/
structure Idle where
  conn : Nat
  /-- When it became idle, in nanoseconds. -/
  since : Nat
deriving DecidableEq, Repr

/-- What a caller wants a connection for. -/
inductive Purpose where
  | command
  | subscription
deriving DecidableEq, Repr

namespace Pool

/-- Where a caller stands. -/
inductive Position where
  /-- On an eviction run: the candidate is being tested, others are still to be examined, some
  have passed. -/
  | examining (candidate : Idle) (left kept : List Idle)
  /-- On an eviction run: opening one of so many missing connections. -/
  | refilling (missing : Nat)
  /-- Waiting for a permit from some time on. -/
  | queued (purpose : Purpose) (since : Nat)
  /-- Testing an idle connection before it is used. -/
  | testing (conn : Nat)
  /-- Opening a connection. -/
  | connecting (purpose : Purpose)
  /-- Running a command. -/
  | running (conn : Nat)
  /-- Testing a connection after it was used. -/
  | returning (conn : Nat)
  /-- Subscribing on a connection of its own. -/
  | subscribing (conn : Nat)
  /-- Holding an open stream. -/
  | streaming (conn : Nat)
  /-- Done, or given up on a fault. -/
  | ended (fault : Option Fault)
deriving DecidableEq, Repr

namespace Position

/-- A caller at this position holds a permit. -/
def holdsPermit : Position → Bool
  | testing _ | connecting _ | running _ | returning _ | subscribing _ | streaming _ => true
  | examining _ _ _ | refilling _ | queued _ _ | ended _ => false

/-- The connections that a caller at this position holds. -/
def conns : Position → List Nat
  | examining c left kept => (kept ++ c :: left).map (·.conn)
  | testing c | running c | returning c | subscribing c | streaming c => [c]
  | refilling _ | queued _ _ | connecting _ | ended _ => []

end Position

/-- What lets a caller go on. -/
inductive Signal where
  /-- A permit is handed to it. -/
  | granted
  /-- The longest wait for a permit is over. -/
  | expired
  /-- The connection that it wanted is open. -/
  | connected (conn : Nat)
  /-- The test, command or subscription went well. -/
  | succeeded
  /-- It did not, or no connection could be opened. -/
  | failed
  /-- The caller is dropped, with everything that it holds. -/
  | dropped
deriving DecidableEq, Repr

end Pool

structure Pool where
  config : PoolConfig
  /-- Permits that nobody holds. -/
  permits : Nat
  /-- Oldest first. -/
  idle : List Idle := []
  /-- When the last eviction run was claimed. -/
  lastEviction : Nat := 0
  clock : Nat := 0
  /-- Every connection opened so far has a lower number. -/
  nextConn : Nat := 0
  /-- Connections that were closed, newest first. -/
  closed : List Nat := []
  /-- Connections on which a command, a subscription or a test failed, newest first. -/
  faulty : List Nat := []
  /-- All callers there ever were; the index of a caller is its number. -/
  callers : List Pool.Position := []
deriving Repr

namespace Pool

/-- No pool has more permits. -/
def permitLimit : Nat := (Nat.pow 2 64 - 1) / 8

/-- The pool of a configuration, unless it asks for more permits than there can be. -/
def ofConfig? (c : PoolConfig) : Option Pool :=
  if c.effectiveMaxTotal ≤ permitLimit then some { config := c, permits := c.effectiveMaxTotal }
  else none

def move (p : Pool) (id : Nat) (position : Position) : Pool :=
  { p with callers := p.callers.set id position }

def elapse (p : Pool) (nanos : Nat) : Pool := { p with clock := p.clock + nanos }

/-! ## Connections -/

def close (p : Pool) (conns : List Nat) : Pool := { p with closed := conns ++ p.closed }

/-- Closes a connection on which something failed. -/
def condemn (p : Pool) (conn : Nat) : Pool :=
  { p.close [conn] with faulty := conn :: p.faulty }

/-- A connection was idle for so long that it is not used again. -/
def isEvictable (p : Pool) (i : Idle) : Bool :=
  p.config.minEvictableIdle.any fun d => d.nanos ≤ p.clock - i.since

/-- Takes the youngest idle connection; those that are evictable are closed on the way. -/
def takeIdle (p : Pool) : Option Nat × Pool :=
  let young := p.idle.reverse
  let p := p.close ((young.takeWhile p.isEvictable).map (·.conn))
  match young.dropWhile p.isEvictable with
  | [] => (none, { p with idle := [] })
  | i :: rest => (some i.conn, { p with idle := rest.reverse })

/-- Keeps a connection for later if there is room. -/
def keep (p : Pool) (conn : Nat) : Pool :=
  if p.idle.length < p.config.effectiveMaxIdle then
    { p with idle := p.idle ++ [⟨conn, p.clock⟩] }
  else p.close [conn]

/-! ## Permits -/

/-- A caller leaves with a permit, which becomes free. -/
def leave (p : Pool) (id : Nat) (fault : Option Fault) : Pool :=
  { p with permits := p.permits + 1 }.move id (.ended fault)

/-- A caller with a permit looks for a connection. -/
def lend (p : Pool) (id : Nat) : Purpose → Pool
  | .subscription => p.move id (.connecting .subscription)
  | .command =>
    match p.takeIdle with
    | (none, p) => p.move id (.connecting .command)
    | (some conn, p) =>
      p.move id (if p.config.testOnBorrow then .testing conn else .running conn)

/-! ## Eviction runs -/

/-- Claims an eviction run if the time for one has come. -/
def claimEviction? (p : Pool) : Option Pool :=
  match p.config.evictionInterval with
  | none => none
  | some d =>
    if p.clock - p.lastEviction < d.nanos then none else some { p with lastEviction := p.clock }

/-- Goes on opening missing connections, or to the permit. -/
def refill (p : Pool) (id missing : Nat) : Pool :=
  if missing = 0 then p.move id (.queued .command p.clock) else p.move id (.refilling missing)

/-- All candidates were examined: those that are kept go back to the front, as far as there is
room. -/
def restore (p : Pool) (id : Nat) (kept : List Idle) : Pool :=
  let room := p.config.effectiveMaxIdle - p.idle.length
  let p := p.close ((kept.drop room).map (·.conn))
  let p := { p with idle := kept.take room ++ p.idle }
  p.refill id (p.config.effectiveMinIdle - p.idle.length)

/-- Examines candidates up to one that has to be tested. -/
def examine (p : Pool) (id : Nat) (kept : List Idle) : List Idle → Pool
  | [] => p.restore id kept
  | c :: left =>
    if p.isEvictable c then (p.close [c.conn]).examine id kept left
    else if p.config.testWhileIdle then p.move id (.examining c left kept)
    else p.examine id (kept ++ [c]) left

/-- Begins an eviction run: the oldest connections are taken out. -/
def evict (p : Pool) (id : Nat) : Pool :=
  let count := p.config.effectiveTestsPerEvictionRun
  { p with idle := p.idle.drop count }.examine id [] (p.idle.take count)

/-! ## Steps -/

/-- A new caller comes. Its number is that of the callers before it. -/
def enter (p : Pool) (purpose : Purpose) : Pool :=
  let id := p.callers.length
  let p := { p with callers := p.callers ++ [Position.queued purpose p.clock] }
  match purpose, p.claimEviction? with
  | .command, some p => p.evict id
  | _, _ => p

/-- A caller is dropped where it stands. -/
def drop (p : Pool) (id : Nat) (position : Position) : Pool :=
  let p := p.close position.conns
  if position.holdsPermit then p.leave id none else p.move id (.ended none)

/-- The connection that a caller wanted is open. -/
def receive (p : Pool) (id conn : Nat) : Position → Option Pool
  | .refilling missing =>
    some ({ p with idle := p.idle ++ [Idle.mk conn p.clock] }.refill id (missing - 1))
  | .connecting .command => some (p.move id (.running conn))
  | .connecting .subscription => some (p.move id (.subscribing conn))
  | _ => none

/-- What a caller waited for went well. -/
def succeed (p : Pool) (id : Nat) : Position → Option Pool
  | .examining c left kept => some (p.examine id (kept ++ [c]) left)
  | .testing conn => some (p.move id (.running conn))
  | .running conn =>
    if p.config.testOnReturn then some (p.move id (.returning conn))
    else some ((p.keep conn).leave id none)
  | .returning conn => some ((p.keep conn).leave id none)
  | .subscribing conn => some (p.move id (.streaming conn))
  | _ => none

/-- What a caller waited for failed. -/
def fail (p : Pool) (id : Nat) : Position → Option Pool
  | .examining c left kept => some ((p.condemn c.conn).examine id kept left)
  | .refilling _ => some (p.refill id 0)
  | .testing conn => some ((p.condemn conn).move id (.connecting .command))
  | .connecting _ => some (p.leave id (some .redis))
  | .running conn => some ((p.condemn conn).leave id (some .redis))
  | .returning conn => some ((p.condemn conn).leave id none)
  | .subscribing conn => some ((p.condemn conn).leave id (some .redis))
  | .streaming conn => some ((p.condemn conn).leave id none)
  | _ => none

/-- One step of a caller, if the signal means anything where it stands. A new connection has a
number that no connection had. -/
def step (p : Pool) (id : Nat) (s : Signal) : Option Pool :=
  match p.callers[id]?, s with
  | none, _ | some (.ended _), _ => none
  | some (.queued purpose _), .granted =>
    if 0 < p.permits then some ({ p with permits := p.permits - 1 }.lend id purpose) else none
  | some (.queued _ since), .expired =>
    match p.config.maxWait with
    | some d =>
      if d.nanos ≤ p.clock - since then some (p.move id (.ended (some (.timeout d)))) else none
    | none => none
  | some position, .connected conn =>
    if p.nextConn ≤ conn then { p with nextConn := conn + 1 }.receive id conn position else none
  | some position, .succeeded => p.succeed id position
  | some position, .failed => p.fail id position
  | some position, .dropped => some (p.drop id position)
  | some _, _ => none

end Pool

end Muster
