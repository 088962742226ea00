import Muster.Duration

/-!
# Faults

Every way an operation on the registry can fail, its text, and the two classes that decide what a
subscription does about it: a transient fault is retried, a fatal one ends the task.

| here | in the program |
| --- | --- |
| `Fault` | `Error` |
| `message` | its display text |
| `isTransient`, `isFatal`, `isRetryable` | `is_transient`, `is_fatal`, `is_retryable` |
-/
namespace Muster

inductive Fault where
  /-- An address that is malformed or that other processes cannot dial. -/
  | invalidAddress (detail : String)
  /-- A lookup key that no mapping names. -/
  | clusterNotFound (key : String)
  | configuration (detail : String)
  /-- The link to the store failed. -/
  | transport (detail : String)
  /-- The store's server answered with an error or could not be reached. -/
  | redis
  /-- No connection became free within the allowed time. -/
  | timeout (waited : Duration)
  /-- Traffic on a channel that is outside the event grammar. -/
  | protocol (detail : String)
  /-- The client was shut down. -/
  | shutdown
  | io (detail : String)
  /-- A document that is not well-formed YAML. -/
  | yaml
deriving DecidableEq, Repr

namespace Fault

/-- The text of a fault. Server and YAML faults have their label only. -/
def message : Fault → String
  | invalidAddress m => "Invalid address: " ++ m
  | clusterNotFound k => "No cluster mapped for lookup key: " ++ k
  | configuration m => "Configuration error: " ++ m
  | transport m => "Store transport error: " ++ m
  | redis => "Redis error: "
  | timeout d => "Timed out acquiring store connection after " ++ d.text
  | protocol m => "Protocol violation on registry channel: " ++ m
  | shutdown => "Registry client has been shut down"
  | io m => "IO error: " ++ m
  | yaml => "YAML parse error: "

/-- A fault of the link to the store. -/
def isTransient : Fault → Bool
  | transport _ | redis | timeout _ | io _ => true
  | _ => false

/-- A fault after which a subscription is not restarted. -/
def isFatal : Fault → Bool
  | protocol _ => true
  | _ => false

/-- The same operation may be tried again unchanged. -/
def isRetryable (f : Fault) : Bool := f.isTransient

end Fault

end Muster
