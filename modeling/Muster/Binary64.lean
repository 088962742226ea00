/-!
# Binary64 rounding

Finite non-negative binary64 values as `mantissa * 2 ^ exponent`, and the rounding of an exact
quotient to the nearest of them, a tie going to the even mantissa. Restart delays grow by this
arithmetic, and decimal numbers in documents are read by it.

The program meets this arithmetic in `next_backoff` of its exponential backoff and in the numbers
of its settings file.
-/
namespace Muster

structure Binary64 where
  mantissa : Nat
  exponent : Int
deriving DecidableEq, Repr

namespace Binary64

/-- The nearest integer to `num / den`, a half going to the even neighbour. -/
def roundHalfEven (num den : Nat) : Nat :=
  let q := num / den
  let r := num % den
  if 2 * r < den then q
  else if den < 2 * r then q + 1
  else if q % 2 = 0 then q else q + 1

/-- The quotient `num / den` in units of `2 ^ e`, as a quotient. -/
def inUnits (num den : Nat) (e : Int) : Nat × Nat :=
  if 0 ≤ e then (num, den * Nat.pow 2 e.toNat)
  else (num * Nat.pow 2 (-e).toNat, den)

/-- The least exponent of a binary64 value. -/
def minExponent : Int := -1074

/-- The greatest exponent of a finite binary64 value with a full mantissa. -/
def maxExponent : Int := 971

/-- The exponent that gives `num / den` a mantissa of 53 bits, or the least exponent. -/
def exponentFor (num den : Nat) : Int :=
  let e := max ((num.log2 : Int) - den.log2 - 53) minExponent
  let (n, d) := inUnits num den e
  if d * Nat.pow 2 53 ≤ n then e + 1 else e

/-- The value with a mantissa that may have been rounded up to `2 ^ 53`, or nothing if it is beyond
the largest one. -/
def ofMantissa? (m : Nat) (e : Int) : Option Binary64 :=
  let x : Binary64 := if m = Nat.pow 2 53 then ⟨Nat.pow 2 52, e + 1⟩ else ⟨m, e⟩
  if maxExponent < x.exponent then none else some x

/-- The value nearest to `num / den`, or nothing if that is beyond the largest one. -/
def ofQuotient? (num den : Nat) : Option Binary64 :=
  if num = 0 then some ⟨0, minExponent⟩
  else
    let e := exponentFor num den
    let units := inUnits num den e
    ofMantissa? (roundHalfEven units.1 units.2) e

/-- The value as an exact quotient. -/
def toQuotient (x : Binary64) : Nat × Nat :=
  if 0 ≤ x.exponent then (x.mantissa * Nat.pow 2 x.exponent.toNat, 1)
  else (x.mantissa, Nat.pow 2 (-x.exponent).toNat)

/-- The product with an exact quotient, rounded. -/
def scale? (x : Binary64) (num den : Nat) : Option Binary64 :=
  ofQuotient? (x.toQuotient.1 * num) (x.toQuotient.2 * den)

/-- The whole part. -/
def floor (x : Binary64) : Nat := x.toQuotient.1 / x.toQuotient.2

def le (x y : Binary64) : Bool :=
  x.toQuotient.1 * y.toQuotient.2 ≤ y.toQuotient.1 * x.toQuotient.2

end Binary64

end Muster
