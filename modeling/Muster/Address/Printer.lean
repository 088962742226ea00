import Muster.Address

/-!
# The canonical text of an address

`ip:port`, with an IPv6 host in brackets. The host is written as RFC 5952 asks: lower-case groups
without leading zeros, the first longest run of at least two zero groups shortened to a double
colon, and an IPv4-mapped host with its last part as an IPv4 address. A scope follows the host
after a percent sign unless it is zero. The flow label is not written.

| here | in the program |
| --- | --- |
| `Address.text` | `fmt` of `Address`, so also the field and message text of an address |
| `Address.validate` | `validate` |
| `Ip.text`, `Octets.text`, `Groups.text` | the printing of IP addresses of its standard library |
-/
namespace Muster

namespace Octets

def text (octets : Octets) : List Char :=
  ['.'].intercalate (octets.toList.map fun o => Text.numeral 10 o.toNat)

end Octets

namespace Groups

/-- Length of the run of zero groups at the head of a list. -/
def zeroRun (gs : List UInt16) : Nat := (gs.takeWhile (· == 0)).length

/-- Start and length of the first longest run of zero groups. -/
def longestZeroRun (gs : List UInt16) : Nat × Nat :=
  (List.range gs.length).foldl (fun best i =>
    let n := zeroRun (gs.drop i)
    if best.2 < n then (i, n) else best) (0, 0)

/-- Groups joined by single colons. -/
def joined (gs : List UInt16) : List Char :=
  [':'].intercalate (gs.map fun g => Text.numeral 16 g.toNat)

/-- The IPv4 address that an IPv4-mapped host stands for. -/
def mapped? (groups : Groups) : Option Octets :=
  if groups.toList.take 6 = [0, 0, 0, 0, 0, 0xffff] then
    some #v[(groups[6] >>> 8).toUInt8, groups[6].toUInt8, (groups[7] >>> 8).toUInt8,
      groups[7].toUInt8]
  else none

def text (groups : Groups) : List Char :=
  match mapped? groups with
  | some octets => "::ffff:".toList ++ octets.text
  | none =>
    let gs := groups.toList
    let (start, len) := longestZeroRun gs
    if 1 < len then joined (gs.take start) ++ [':', ':'] ++ joined (gs.drop (start + len))
    else joined gs

end Groups

namespace Ip

def text : Ip → String
  | v4 octets => String.ofList octets.text
  | v6 groups => String.ofList (Groups.text groups)

end Ip

namespace Address

/-- The canonical text, as characters. -/
def chars : Address → List Char
  | v4 octets port => octets.text ++ ':' :: Text.numeral 10 port.toNat
  | v6 groups port _ scope =>
    let host := if scope = 0 then groups.text
      else groups.text ++ '%' :: Text.numeral 10 scope.toNat
    '[' :: host ++ ']' :: ':' :: Text.numeral 10 port.toNat

def text (a : Address) : String := String.ofList a.chars

/-- Refuses an address that other processes cannot dial. -/
def validate (a : Address) : Except Fault Unit :=
  if a.port = 0 then .error (.invalidAddress (a.text ++ ": port must be non-zero"))
  else if a.ip.isUnspecified then
    .error (.invalidAddress (a.text ++ ": unspecified host is not routable"))
  else .ok ()

end Address

end Muster
