import Muster.Config.Pool
import Muster.Config.Restart
import Muster.Text.Percent

/-!
# Client configuration

The settings of one client, read from a source, and the two texts that name its store: the server
address and the connection URL. Of several faults the first one read is reported.

| here | in the program, `RegistryConfig` |
| --- | --- |
| `ClientConfig` | `RegistryConfig` |
| `ofSource` | `from_source` |
| `parseServerAddr`, `processIdentity` | `parse_server_addr`, `process_identity` |
| `ownKey` | `own_registry_key` |
| `serverAddr`, `redisUrl` | `server_addr`, `redis_url` |
-/
namespace Muster

structure ClientConfig where
  /-- The cluster under which this client registers addresses. -/
  cluster : String := "default"
  host : String := "127.0.0.1"
  port : Nat := 6379
  password : Option String := none
  db : Int := 0
  pool : PoolConfig := {}
  restart : RestartPolicy := {}
  /-- The value stored beside a registered address. -/
  identity : String
deriving DecidableEq, Repr

namespace ClientConfig

/-- Splits at the last colon. -/
def splitLastColon : List Char → Option (List Char × List Char)
  | [] => none
  | c :: rest =>
    match splitLastColon rest with
    | some (before, after) => some (c :: before, after)
    | none => if c = ':' then some ([], rest) else none

/-- A host without brackets and a port, from the text of a server address. -/
def parseServerAddr (raw : String) : Except Fault (String × Nat) :=
  match splitLastColon (Text.trim raw).toList with
  | none => .error (Source.bad "serverAddr" " must be host:port: " raw)
  | some (before, after) =>
    match (Text.unsigned? 65536 (String.ofList after)).filter (0 < ·) with
    | none => .error (.configuration
        ("invalid port in " ++ registryPrefix ++ "serverAddr: '" ++ raw ++ "'"))
    | some port =>
      let host := Text.dropWhileEnd (· == ']') (before.dropWhile (· == '['))
      if host = [] then
        .error (.configuration ("empty host in " ++ registryPrefix ++ "serverAddr"))
      else .ok (String.ofList host, port)

/-- Reads the settings; `self` is the identity of the running process. -/
def ofSource (self : String) (src : Source) : Except Fault ClientConfig := do
  let cluster := (src.filled? "cluster").getD "default"
  let raw ← match src.setting? "serverAddr" with
    | some raw => pure raw
    | none => throw (.configuration ("missing " ++ registryPrefix ++ "serverAddr"))
  let (host, port) ← parseServerAddr raw
  let db ← match src.setting? "db" with
    | none => pure 0
    | some raw =>
      match Text.signed? 64 raw with
      | some n => pure n
      | none => throw (Source.bad "db" " must be an integer: " raw)
  let pool ← PoolConfig.ofSource src
  let restart ← RestartPolicy.ofSource src
  pure {
    cluster, host, port, db, pool, restart
    password := src.filled? "password"
    identity := (src.filled? "identity").getD self }

/-- The identity of a process on the host that its environment names. -/
def processIdentity (pid : String) (env : String → Option String) : String :=
  pid ++ "@" ++ ((env "HOSTNAME" <|> env "COMPUTERNAME").getD "localhost")

/-- The store key of the client's own cluster. -/
def ownKey (c : ClientConfig) : String := registryKey c.cluster

/-- Host and port, the host in brackets if it holds a colon. -/
def serverAddr (c : ClientConfig) : String :=
  let host := if c.host.toList.contains ':' then "[" ++ c.host ++ "]" else c.host
  host ++ ":" ++ Text.decimal c.port

/-- The URL of the store, with the password escaped. -/
def redisUrl (c : ClientConfig) : String :=
  let rest := c.serverAddr ++ "/" ++ Text.decimalInt c.db
  match c.password with
  | some p => "redis://:" ++ Text.percentEncode p ++ "@" ++ rest
  | none => "redis://" ++ rest

end ClientConfig

end Muster
