/-!
# Numbers as text

Reading of unsigned and signed decimal numbers. A sign is allowed where the type has one, and a
leading plus always; nothing else may stand beside the digits.

`unsigned?` and `signed?` are the reading of integers in `positive`, `parse_server_addr` and
`from_source` of the program.
-/
namespace Muster.Text

/-- Value of an ASCII digit in a radix of at most sixteen, in either case. -/
def digit? (radix : Nat) (c : Char) : Option Nat :=
  let v :=
    if '0' ≤ c ∧ c ≤ '9' then some (c.toNat - '0'.toNat)
    else if 'a' ≤ c ∧ c ≤ 'f' then some (c.toNat - 'a'.toNat + 10)
    else if 'A' ≤ c ∧ c ≤ 'F' then some (c.toNat - 'A'.toNat + 10)
    else none
  v.filter (· < radix)

def isDigit (radix : Nat) (c : Char) : Bool := (digit? radix c).isSome

/-- The number that a list of digits writes, most significant digit first. -/
def digitsValue (radix : Nat) (cs : List Char) : Nat :=
  cs.foldl (fun n c => n * radix + (digit? radix c).getD 0) 0

/-- A non-empty list of digits and nothing else. -/
def natural? (radix : Nat) (cs : List Char) : Option Nat :=
  if cs ≠ [] ∧ cs.all (isDigit radix) then some (digitsValue radix cs) else none

/-- A decimal number below `bound`, with an optional plus. -/
def unsigned? (bound : Nat) (s : String) : Option Nat :=
  let digits := match s.toList with
    | '+' :: cs => cs
    | cs => cs
  (natural? 10 digits).filter (· < bound)

/-- A decimal number of `bits` bits in two's complement, with an optional sign. -/
def signed? (bits : Nat) (s : String) : Option Int :=
  let half := Int.pow 2 (bits - 1)
  let value : Option Int := match s.toList with
    | '+' :: cs => (natural? 10 cs).map Int.ofNat
    | '-' :: cs => (natural? 10 cs).map fun n => - (n : Int)
    | cs => (natural? 10 cs).map Int.ofNat
  value.filter fun v => -half ≤ v ∧ v < half

/-- Digits of a number in a radix of at most sixteen, lower case, without leading zeros. -/
def numeral (radix n : Nat) : List Char := Nat.toDigits radix n

def decimal (n : Nat) : String := String.ofList (numeral 10 n)

def decimalInt (i : Int) : String :=
  match i with
  | .ofNat n => decimal n
  | .negSucc n => "-" ++ decimal (n + 1)

end Muster.Text
