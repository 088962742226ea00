import Muster.Binary64
import Muster.Text.Number

/-!
# Decimal text of binary64 values

The fewest decimal digits that read back to a value, the nearest to it where there is a choice,
and their layout in documents: positional up to sixteen digits and down to five places, otherwise
with an exponent.

`text` is the text of a number in `scalar_to_string` of the program.
-/
namespace Muster

/-- Digits as a number, times a power of ten. -/
structure Decimal where
  digits : Nat
  exponent : Int
deriving DecidableEq, Repr

namespace Decimal

/-- The exact value as a quotient. -/
def toQuotient (d : Decimal) : Nat × Nat :=
  if 0 ≤ d.exponent then (d.digits * Nat.pow 10 d.exponent.toNat, 1)
  else (d.digits, Nat.pow 10 (-d.exponent).toNat)

/-- The value reads back to `x`. -/
def readsAs (x : Binary64) (d : Decimal) : Bool :=
  Binary64.ofQuotient? d.toQuotient.1 d.toQuotient.2 == some x

/-- How many decimal digits a number has. -/
def size (n : Nat) : Nat := (Text.numeral 10 n).length

/-- The neighbours of `x` with `n` digits when its leading digit stands before the `point`-th place:
the lower one and, first of both if it is nearer, the upper one. A tie goes to the even digit. -/
def neighbours (x : Binary64) (point : Int) (n : Nat) : List Decimal :=
  let (num, den) := x.toQuotient
  let e := point - n
  let (num, den) := if 0 ≤ e then (num, den * Nat.pow 10 e.toNat)
    else (num * Nat.pow 10 (-e).toNat, den)
  let q := num / den
  let r := 2 * (num % den)
  let low : Decimal := ⟨q, e⟩
  let high : Decimal := ⟨q + 1, e⟩
  if r < den ∨ (r = den ∧ q % 2 = 0) then [low, high] else [high, low]

/-- The least power of ten above a positive value, by its binary length and then by steps. -/
def pointOf (x : Binary64) : Int :=
  let (num, den) := x.toQuotient
  if den ≤ num then size (num / den)
  else
    let places := size (den / num) - 1
    if num * Nat.pow 10 places < den then -(places : Int) else 1 - (places : Int)

/-- Drops zeros at the end of the digits. -/
def strip : (fuel : Nat) → Decimal → Decimal
  | 0, d => d
  | fuel + 1, d =>
    if d.digits ≠ 0 ∧ d.digits % 10 = 0 then strip fuel ⟨d.digits / 10, d.exponent + 1⟩ else d

/-- The shortest decimal that reads back to a positive value. -/
def shortest (x : Binary64) : Decimal :=
  let point := pointOf x
  let candidates := (List.range 17).flatMap fun n =>
    (neighbours x point (n + 1)).filter (readsAs x)
  strip 20 (candidates.head?.getD ⟨x.mantissa, 0⟩)

/-- The layout of a positive number. -/
def layout (d : Decimal) : List Char :=
  let ds := Text.numeral 10 d.digits
  let point : Int := ds.length + d.exponent
  if 0 ≤ d.exponent ∧ point ≤ 16 then
    ds ++ List.replicate d.exponent.toNat '0' ++ ['.', '0']
  else if 0 < point ∧ point ≤ 16 then ds.take point.toNat ++ '.' :: ds.drop point.toNat
  else if -5 < point ∧ point ≤ 0 then
    ['0', '.'] ++ List.replicate (-point).toNat '0' ++ ds
  else
    let exponent := 'e' :: (Text.decimalInt (point - 1)).toList
    match ds with
    | [d] => d :: exponent
    | d :: rest => d :: '.' :: rest ++ exponent
    | [] => exponent

/-- The text of a value. -/
def text (negative : Bool) (x : Binary64) : String :=
  let body := if x.mantissa = 0 then ['0', '.', '0'] else layout (shortest x)
  String.ofList (if negative then '-' :: body else body)

/-- The value of `digits * 10 ^ exponent`, or nothing beyond the largest one. Numbers that are far
too large or too small for a value are told by their length. -/
def read? (digits : Nat) (exponent : Int) : Option Binary64 :=
  if digits = 0 then some ⟨0, Binary64.minExponent⟩
  else if 310 < size digits + exponent then none
  else if size digits + exponent < -330 then some ⟨0, Binary64.minExponent⟩
  else
    let (num, den) := toQuotient ⟨digits, exponent⟩
    Binary64.ofQuotient? num den

end Decimal

end Muster
