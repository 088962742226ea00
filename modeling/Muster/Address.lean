import Muster.Fault

/-!
# Addresses

The address of a server: an IP address and a port, and for IPv6 a flow label and a scope as well.
Two addresses are equal when all their parts are; they are ordered by family, then part by part.

| here | in the program |
| --- | --- |
| `Address` | `Address` over a socket address |
| `Address.ofIp` | `new` |
| `orderKey`, `sort` | its derived order, and `lookup_view` where it sorts the members |
| `Ip.isUnspecified` | what `validate` asks of the host |
-/
namespace Muster

/-- The octets of an IPv4 address. -/
abbrev Octets := Vector UInt8 4

/-- The sixteen-bit groups of an IPv6 address. -/
abbrev Groups := Vector UInt16 8

inductive Ip where
  | v4 (octets : Octets)
  | v6 (groups : Groups)
deriving DecidableEq, Repr

namespace Ip

/-- The wildcard address of its family. -/
def isUnspecified : Ip → Bool
  | v4 octets => octets.toList.all (· == 0)
  | v6 groups => groups.toList.all (· == 0)

end Ip

inductive Address where
  | v4 (octets : Octets) (port : UInt16)
  | v6 (groups : Groups) (port : UInt16) (flow : UInt32) (scope : UInt32)
deriving DecidableEq, Repr

namespace Address

/-- The address of a port on a host, without flow label or scope. -/
def ofIp (ip : Ip) (port : UInt16) : Address :=
  match ip with
  | .v4 octets => v4 octets port
  | .v6 groups => v6 groups port 0 0

def ip : Address → Ip
  | v4 octets _ => .v4 octets
  | v6 groups _ _ _ => .v6 groups

def port : Address → UInt16
  | v4 _ p => p
  | v6 _ p _ _ => p

def isV6 : Address → Bool
  | v4 _ _ => false
  | v6 _ _ _ _ => true

/-- The parts that decide the order of two addresses, most significant first. -/
def orderKey : Address → List Nat
  | v4 octets p => 0 :: octets.toList.map (·.toNat) ++ [p.toNat]
  | v6 groups p flow scope =>
    1 :: groups.toList.map (·.toNat) ++ [p.toNat, flow.toNat, scope.toNat]

instance : Ord Address where
  compare a b := compare a.orderKey b.orderKey

/-- Addresses in ascending order, duplicates kept. -/
def sort (as : List Address) : List Address :=
  as.mergeSort fun a b => (compare a b).isLE

end Address

end Muster
