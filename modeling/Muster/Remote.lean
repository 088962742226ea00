import Muster.Pool
import Muster.Remote.Server
import Muster.Store.Url

/-!
# The remote store

The store of a client on a server: every command and every subscription is a caller of the
connection pool, and the server decides how each of its steps comes out. Nothing is sent before
the first command.

| here | in the program, `RedisStore` |
| --- | --- |
| `launch` | `new` |
| `begin` | `hash_set`, `hash_delete`, `hash_get_all`, `publish` and `subscribe` |
| `ping` | `ping` |
| `next` | reading the stream that `subscribe` returns |
-/
namespace Muster

structure Remote where
  config : ClientConfig
  pool : Pool
  server : Server
  /-- What each caller of the pool wants. -/
  jobs : Table Nat StoreCall := {}
  /-- Replies that a caller waits for and that the server keeps back. -/
  withheld : Table Nat Reply := {}
  /-- What became of commands that have a reply. -/
  answers : Table Nat (Except Fault Answer) := {}

namespace Remote

/-- What setting a store up leads to. -/
inductive Launch where
  | ready (remote : Remote)
  /-- The configuration does not name a store. -/
  | refused (fault : Fault)
  /-- There cannot be so many permits; the program stops. -/
  | aborted

/-- Sets the store of a configuration up. No connection is opened. -/
def launch (config : ClientConfig) (server : Server) : Launch :=
  match StoreUrl.ofText? config.redisUrl, Pool.ofConfig? config.pool with
  | none, _ => .refused .redis
  | some _, none => .aborted
  | some _, some pool => .ready { config, pool, server }

/-! ## Connections -/

/-- The requests that a new connection begins with. -/
def greeting (config : ClientConfig) : List Request :=
  (config.password.map Request.auth).toList ++
    (if config.db = 0 then [] else [.select config.db])

/-- Sends the greeting; every reply has to be a status. -/
def greet (s : Server) (conn : Nat) : List Request → Bool × Server
  | [] => (true, s)
  | r :: rest =>
    match s.request conn r with
    | (.status, s) => greet s conn rest
    | (_, s) => (false, s.close conn)

/-- Opens a connection. -/
def connect (r : Remote) : Option Nat × Remote :=
  match r.server.connect with
  | none => (none, r)
  | some (conn, s) =>
    let (welcome, server) := greet s conn (greeting r.config)
    (if welcome then some conn else none, { r with server })

/-- The server notices the connections that the pool has closed. -/
def sweep (r : Remote) : Remote :=
  { r with server := (r.server.live.filter r.pool.closed.contains).foldl Server.close r.server }

/-- Gives a signal to a caller. -/
def signal (r : Remote) (id : Nat) (s : Pool.Signal) : Option Remote :=
  (r.pool.step id s).map fun pool => { r with pool }.sweep

/-! ## Steps of a caller -/

/-- The reply to a command is kept back for keys that begin so. -/
def isWithheld (call : StoreCall) : Bool := call.key.startsWith "stall:"

/-- Tests a connection. -/
def ping (r : Remote) (id conn : Nat) : Option Remote :=
  let (reply, server) := r.server.request conn .ping
  { r with server }.signal id (if reply.isStatus then .succeeded else .failed)

/-- A reply to the command of a caller is there. -/
def finish (r : Remote) (id : Nat) (call : StoreCall) (reply : Reply) : Option Remote :=
  let answer := reply.answer call
  { r with answers := r.answers.insert id answer }.signal id
    (match answer with
      | .ok _ => .succeeded
      | .error _ => .failed)

/-- Sends the command of a caller. -/
def send (r : Remote) (id conn : Nat) (call : StoreCall) : Option Remote :=
  let (reply, server) := r.server.request conn (.command call)
  if isWithheld call then some { r with server, withheld := r.withheld.insert id reply }
  else { r with server }.finish id call reply

/-- Opens a connection for a caller. -/
def supply (r : Remote) (id : Nat) : Option Remote :=
  match r.connect with
  | (some conn, r) => r.signal id (.connected conn)
  | (none, r) => r.signal id .failed

/-- Waits for a permit, as long as the configuration allows. -/
def await (r : Remote) (id since : Nat) : Option Remote :=
  if 0 < r.pool.permits then r.signal id .granted
  else
    match r.config.pool.maxWait with
    | none => none
    | some d =>
      let left := since + d.nanos - r.pool.clock
      { r with pool := r.pool.elapse left }.signal id .expired

/-- One step of a caller, or nothing while it has to wait. -/
def advance (r : Remote) (id : Nat) : Option Remote :=
  match r.pool.callers[id]?, r.jobs.get? id with
  | some (.examining c _ _), _ => r.ping id c.conn
  | some (.testing conn), _ | some (.returning conn), _ => r.ping id conn
  | some (.refilling _), _ | some (.connecting _), _ => r.supply id
  | some (.queued _ since), _ => r.await id since
  | some (.running conn), some call | some (.subscribing conn), some call =>
    if r.withheld.contains id then none else r.send id conn call
  | _, _ => none

/-- How many steps a caller may take at a time. -/
def patience : Nat := 100000

/-- A caller goes on until it is done or has to wait. -/
def run (id : Nat) : Nat → Remote → Remote
  | 0, r => r
  | fuel + 1, r =>
    match r.advance id with
    | none => r
    | some r => run id fuel r

/-- A caller comes and goes on as far as it can. Answers its number. -/
def begin (r : Remote) (call : StoreCall) : Nat × Remote :=
  let id := r.pool.callers.length
  let purpose := match call with
    | .subscribe _ => Purpose.subscription
    | _ => Purpose.command
  (id, run id patience { r with pool := r.pool.enter purpose, jobs := r.jobs.insert id call })

/-- What became of a caller, if it is done with its command. -/
def answer? (r : Remote) (id : Nat) : Option (Except Fault Answer) :=
  match r.pool.callers[id]? with
  | some (.ended (some f)) => some (.error f)
  | some (.ended none) | some (.streaming _) => some ((r.answers.get? id).getD (.ok .done))
  | _ => none

/-- A caller waits for a reply that the server keeps back. -/
def isStalled (r : Remote) (id : Nat) : Bool := r.withheld.contains id

/-- A reply that was kept back comes, or the connection is gone and none will. -/
def resolve (r : Remote) (id : Nat) (reply : Reply) : Remote :=
  match r.jobs.get? id with
  | none => r
  | some call =>
    match { r with withheld := r.withheld.erase id }.finish id call reply with
    | some r => run id patience r
    | none => r

/-- The server sends the reply that it kept back. -/
def letGo (r : Remote) (id : Nat) : Remote :=
  match r.withheld.get? id with
  | some reply => r.resolve id reply
  | none => r

/-- The server closes all connections. -/
def cutOff (r : Remote) : Remote :=
  r.withheld.keys.foldl (fun r id => r.resolve id .lost) { r with server := r.server.closeAll }

/-! ## Streams -/

/-- Reads the stream of a caller: a payload, or nothing yet, or the end, at which the stream is let
go. -/
def next (r : Remote) (id : Nat) : Option (Except Fault (Option String)) × Remote :=
  match r.pool.callers[id]?, r.jobs.get? id with
  | some (.streaming conn), some call =>
    match r.server.receive? conn with
    | some (payload, server) => (some ((payloadText call.key payload).map some), { r with server })
    | none =>
      if conn ∈ r.server.live then (none, r)
      else (some (.ok none), (r.signal id .failed).getD r)
  | _, _ => (some (.ok none), r)

/-- Drops a caller. -/
def drop (r : Remote) (id : Nat) : Remote := (r.signal id .dropped).getD r

def elapse (r : Remote) (nanos : Nat) : Remote := { r with pool := r.pool.elapse nanos }

end Remote

end Muster
