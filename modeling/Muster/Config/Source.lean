import Muster.Fault
import Muster.Table
import Muster.Text.Blank

/-!
# Configuration sources

A source answers dotted keys with raw text. The settings of a client stand under one common
beginning and lose blanks at both ends; the table from lookup keys to clusters stands under
another.

| here | in the program |
| --- | --- |
| `Source` | the port `ConfigSource` |
| `registryKey`, `mappingKey` | `registry_key`, `mapping_key` |
| `cluster?` | `resolve_cluster` |
| `setting?`, `flag` | `get`, `flag` |
| `count?`, `millis?` | `positive`, as a number and as a duration |
| `narrowCount?` | `positive_as` with `narrow` |
-/
namespace Muster

/-- A flat lookup of dotted keys. -/
abbrev Source := String → Option String

/-- The source that a table holds. -/
def Source.ofTable (t : Table String String) : Source := t.get?

/-- The beginning of every setting, store key and channel name. -/
def registryPrefix : String := "registry.redis."

/-- The store key and channel of a cluster. -/
def registryKey (cluster : String) : String := registryPrefix ++ cluster

/-- The key under which a lookup key's cluster stands. -/
def mappingKey (lookupKey : String) : String := "service.vgroup_mapping." ++ lookupKey

namespace Source

/-- The cluster of a lookup key; a blank entry counts as none. -/
def cluster? (src : Source) (lookupKey : String) : Option String :=
  ((src (mappingKey lookupKey)).map Text.trim).filter (· ≠ "")

/-- A setting without the blanks at its ends. -/
def setting? (src : Source) (name : String) : Option String :=
  (src (registryPrefix ++ name)).map Text.trim

/-- A setting that is not empty. -/
def filled? (src : Source) (name : String) : Option String :=
  (src.setting? name).filter (· ≠ "")

/-- A complaint about the value of a setting. -/
def bad (name expected raw : String) : Fault :=
  .configuration (registryPrefix ++ name ++ expected ++ "'" ++ raw ++ "'")

/-- A switch, in any case of its letters. -/
def flag (src : Source) (name : String) (default : Bool) : Except Fault Bool :=
  match src.setting? name with
  | none => .ok default
  | some raw =>
    let lower := raw.toList.map Char.toLower
    if lower = "true".toList then .ok true
    else if lower = "false".toList then .ok false
    else .error (bad name " must be true or false: " raw)

/-- A count of at most 64 bits; zero means unset. -/
def count? (src : Source) (name : String) : Except Fault (Option Nat) :=
  match src.setting? name with
  | none => .ok none
  | some raw =>
    match Text.unsigned? (Nat.pow 2 64) raw with
    | none => .error (bad name " must be a non-negative integer: " raw)
    | some 0 => .ok none
    | some n => .ok (some n)

/-- A count that has to fit into `bits` bits as well. -/
def narrowCount? (src : Source) (name : String) (bits : Nat) : Except Fault (Option Nat) := do
  match ← src.count? name with
  | none => pure none
  | some n =>
    if n < Nat.pow 2 bits then pure (some n)
    else throw (.configuration (registryPrefix ++ name ++ " is out of range: " ++ Text.decimal n))

/-- A length of time in milliseconds; zero means unset. -/
def millis? (src : Source) (name : String) : Except Fault (Option Duration) :=
  (src.count? name).map fun n => n.map Duration.ofMillis

end Source

end Muster
