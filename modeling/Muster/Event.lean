import Muster.Address.Parser

/-!
# Membership events

The messages on a cluster's channel: an address, a minus sign and the kind of change. Anything
else is a protocol fault, never skipped, since its sender speaks another protocol.

| here | in the program |
| --- | --- |
| `EventKind.text`, `EventKind.ofText` | `as_str`, `from_str` of `EventKind` |
| `Event` | `RegistryEvent` |
| `encode`, `decode` | `encode`, `decode` |
-/
namespace Muster

inductive EventKind where
  | register
  | unregister
deriving DecidableEq, Repr

namespace EventKind

def text : EventKind → String
  | register => "REGISTER"
  | unregister => "UNREGISTER"

def ofText? (s : String) : Option EventKind :=
  if s = "REGISTER" then some register
  else if s = "UNREGISTER" then some unregister
  else none

def ofText (s : String) : Except Fault EventKind :=
  match ofText? s with
  | some k => .ok k
  | none => .error (.protocol ("unknown event kind '" ++ s ++ "'"))

end EventKind

/-- One address joins or leaves a cluster. -/
structure Event where
  address : Address
  kind : EventKind
deriving DecidableEq, Repr

namespace Event

def register (a : Address) : Event := ⟨a, .register⟩

def unregister (a : Address) : Event := ⟨a, .unregister⟩

/-- The message of an event. -/
def encode (e : Event) : String := e.address.text ++ "-" ++ e.kind.text

/-- Splits at the last minus sign. -/
def splitLast (cs : List Char) : Option (List Char × List Char) :=
  match cs with
  | [] => none
  | c :: rest =>
    match splitLast rest with
    | some (before, after) => some (c :: before, after)
    | none => if c = '-' then some ([], rest) else none

/-- Reads a message. The separator is looked for first, then the kind, then the address. -/
def decode (message : String) : Except Fault Event :=
  match splitLast message.toList with
  | none => .error (.protocol ("missing separator in '" ++ message ++ "'"))
  | some (address, kind) =>
    match EventKind.ofText? (String.ofList kind) with
    | none => .error (.protocol ("unknown event kind in '" ++ message ++ "'"))
    | some k =>
      match Address.ofText? (String.ofList address) with
      | none => .error (.protocol ("malformed address in '" ++ message ++ "'"))
      | some a => .ok ⟨a, k⟩

end Event

end Muster
