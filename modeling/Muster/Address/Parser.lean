import Muster.Address.Printer

/-!
# Reading addresses

The grammar of an address: four decimal octets, or a bracketed IPv6 host with an optional decimal
scope, then a colon and a port. Octets have no leading zeros, ports may. A reader takes the
characters it understands from the front of the input and gives back the rest; an address is read
only when nothing is left.

| here | in the program |
| --- | --- |
| `Address.ofText` | `from_str` of `Address` |
| `Address.ofText?` | the same where the error is not shown: `decode`, `addresses_from_snapshot` |
| `Parser`, `Ip.ofText?` | the readers of socket and IP addresses of its standard library |
-/
namespace Muster

namespace Address.Parser

/-- Takes the digits at the front: at most `most` of them if a limit is given, without a leading
zero unless `zeros` allows it, and of a value below `bound`. -/
def number (radix : Nat) (most : Option Nat) (zeros : Bool) (bound : Nat) (cs : List Char) :
    Option (Nat × List Char) :=
  let ds := cs.takeWhile (Text.isDigit radix)
  if ds = [] then none
  else if most.any (· < ds.length) then none
  else if !zeros && 1 < ds.length && ds.head? == some '0' then none
  else if Text.digitsValue radix ds < bound then
    some (Text.digitsValue radix ds, cs.dropWhile (Text.isDigit radix))
  else none

/-- Takes one given character. -/
def char (c : Char) : List Char → Option (List Char)
  | d :: rest => if d = c then some rest else none
  | [] => none

def octet (cs : List Char) : Option (UInt8 × List Char) :=
  (number 10 (some 3) false 256 cs).map fun (n, rest) => (n.toUInt8, rest)

def group (cs : List Char) : Option (UInt16 × List Char) :=
  (number 16 (some 4) true 65536 cs).map fun (n, rest) => (n.toUInt16, rest)

def octets (cs : List Char) : Option (Octets × List Char) := do
  let (a, cs) ← octet cs
  let (b, cs) ← char '.' cs >>= octet
  let (c, cs) ← char '.' cs >>= octet
  let (d, cs) ← char '.' cs >>= octet
  pure (#v[a, b, c, d], cs)

/-- The separator before a group: none before the first of a list. -/
def colonUnless (first : Bool) (cs : List Char) : Option (List Char) :=
  if first then some cs else char ':' cs

/-- Two octets as one group. -/
def pair (hi lo : UInt8) : UInt16 := (hi.toUInt16 <<< 8) ||| lo.toUInt16

/-- Takes up to `room` groups separated by colons. An IPv4 address may stand for the last two,
and ends the list; the flag says whether one did. -/
def groupList : (room : Nat) → (first : Bool) → List Char → List UInt16 × Bool × List Char
  | 0, _, cs => ([], false, cs)
  | room + 1, first, cs =>
    match (if room = 0 then none else colonUnless first cs >>= octets) with
    | some (o, rest) => ([pair o[0] o[1], pair o[2] o[3]], true, rest)
    | none =>
      match colonUnless first cs >>= group with
      | some (g, rest) =>
        let (gs, embedded, rest) := groupList room false rest
        (g :: gs, embedded, rest)
      | none => ([], false, cs)

/-- Eight groups from a list that has as many. -/
def ofList? (gs : List UInt16) : Option Groups :=
  if h : gs.length = 8 then some ⟨gs.toArray, by simpa using h⟩ else none

/-- Takes an IPv6 host: eight groups, or fewer around one double colon. -/
def groups (cs : List Char) : Option (Groups × List Char) :=
  let (front, embedded, rest) := groupList 8 true cs
  if front.length = 8 then (ofList? front).map (·, rest)
  else if embedded then none
  else do
    let rest ← char ':' rest >>= char ':'
    let (back, _, rest) := groupList (7 - front.length) true rest
    let zeros := List.replicate (8 - front.length - back.length) 0
    let gs ← ofList? (front ++ zeros ++ back)
    pure (gs, rest)

def port (cs : List Char) : Option (UInt16 × List Char) := do
  let (n, rest) ← char ':' cs >>= number 10 none true 65536
  pure (n.toUInt16, rest)

/-- Takes a scope, or nothing and the scope zero. -/
def scope (cs : List Char) : UInt32 × List Char :=
  match char '%' cs >>= number 10 none true 4294967296 with
  | some (n, rest) => (n.toUInt32, rest)
  | none => (0, cs)

def v4 (cs : List Char) : Option (Address × List Char) := do
  let (o, cs) ← octets cs
  let (p, cs) ← port cs
  pure (.v4 o p, cs)

def v6 (cs : List Char) : Option (Address × List Char) := do
  let (g, cs) ← char '[' cs >>= groups
  let (s, cs) := scope cs
  let (p, cs) ← char ']' cs >>= port
  pure (.v6 g p 0 s, cs)

/-- The value read, if the reader left nothing over. -/
def whole {α : Type} : Option (α × List Char) → Option α
  | some (a, []) => some a
  | _ => none

end Address.Parser

namespace Ip

/-- Reads a bare IP address. -/
def ofText? (s : String) : Option Ip :=
  match Address.Parser.octets s.toList with
  | some (o, rest) => if rest = [] then some (v4 o) else none
  | none => (Address.Parser.whole (Address.Parser.groups s.toList)).map v6

end Ip

namespace Address

/-- Reads an address; neither blanks nor signs are allowed anywhere. -/
def ofText? (s : String) : Option Address :=
  Parser.whole (Parser.v4 s.toList) <|> Parser.whole (Parser.v6 s.toList)

/-- Reads an address, or says that the text is none. -/
def ofText (s : String) : Except Fault Address :=
  match ofText? s with
  | some a => .ok a
  | none => .error (.invalidAddress (s ++ ": invalid socket address syntax"))

end Address

end Muster
