import Muster.Config.Source
import Muster.Yaml.Document

/-!
# Flat configuration from documents

The settings that a document holds: every scalar under the path of its keys, joined by dots. A
later scalar under the same path wins. Null is no setting, tags are passed over, and sequences and
keys that are no scalars are refused.

| here | in the program |
| --- | --- |
| `Settings` | `MapConfig` |
| `ofYaml`, `ofFile` | `from_yaml_str`, `from_yaml_file` |
| `ofValue` | `from_yaml_str` after parsing |
| `addValue`, `addPairs` | `flatten` and its loop over a mapping |
| `scalarText?` | `scalar_to_string` |
-/
namespace Muster

/-- Settings by their dotted keys. -/
abbrev Settings := Table String String

namespace Settings

open Yaml

/-- The text of a string, a number or a boolean. -/
def scalarText? : Value → Option String
  | .string s => some s
  | .number n => some n.text
  | .bool true => some "true"
  | .bool false => some "false"
  | _ => none

/-- A key below a path; an empty path leaves no dot. -/
def below (path segment : String) : String :=
  if path = "" then segment else path ++ "." ++ segment

mutual

/-- Adds the scalars of a value that stands under a path. -/
def addValue (path : String) : Value → Settings → Except Fault Settings
  | .mapping ps, out => addPairs path ps out
  | .sequence _, _ =>
    .error (.configuration ("sequences are not supported (key '" ++ path ++ "')"))
  | .null, out => .ok out
  | .tagged _ v, out => addValue path v out
  | .string s, out => .ok (out.insert path s)
  | .number n, out => .ok (out.insert path n.text)
  | .bool b, out => .ok (out.insert path (if b then "true" else "false"))

def addPairs (path : String) : List (Value × Value) → Settings → Except Fault Settings
  | [], out => .ok out
  | (k, v) :: ps, out =>
    match scalarText? k with
    | none => .error (.configuration ("non-scalar key under '" ++ path ++ "'"))
    | some segment =>
      match addValue (below path segment) v out with
      | .error f => .error f
      | .ok out => addPairs path ps out

end

/-- The settings of a document, which has to be a mapping or empty. -/
def ofValue : Value → Except Fault Settings
  | .null => .ok {}
  | .mapping ps => addPairs "" ps {}
  | _ => .error (.configuration "configuration root must be a mapping")

def ofYaml (text : String) : Except Fault Settings :=
  match Value.ofText? text with
  | none => .error .yaml
  | some v => ofValue v

def missingFile : Fault := .io "No such file or directory (os error 2)"

/-- The text of a file with this content; no content means that there is no such file. -/
def fileText (content : Option (List UInt8)) : Except Fault String :=
  match content with
  | none => .error missingFile
  | some bytes =>
    match Text.Utf8.decode bytes with
    | .error _ => .error (.io "stream did not contain valid UTF-8")
    | .ok text => .ok text

/-- The settings of a file. -/
def ofFile (content : Option (List UInt8)) : Except Fault Settings :=
  (fileText content).bind ofYaml

end Settings

end Muster
