import Mathlib.Algebra.Order.Field.Power
import Mathlib.Algebra.Order.Floor.Semifield
import Mathlib.Data.Nat.Log
import Mathlib.Data.Rat.Floor
import Mathlib.Tactic.FieldSimp
import Mathlib.Tactic.Linarith
import Mathlib.Tactic.Positivity
import Mathlib.Tactic.Ring
import Muster.Binary64

/-!
# Rounding to binary64

How far a quotient is from the value that it is rounded to. Below `2 ^ p` it is half a unit of
`2 ^ (p - 53)` at most, and multiples of that unit are values themselves (`ofQuotient?_of_lt`).
-/
namespace Muster.Binary64

/-- The number that is meant. -/
def value (x : Binary64) : ℚ := x.mantissa * 2 ^ x.exponent

variable {num den : Nat} {e p : Int} {x y : Binary64}

/-! ## Values as quotients -/

theorem toQuotient_pos (x : Binary64) : 0 < x.toQuotient.2 := by
  unfold toQuotient
  split
  · exact Nat.one_pos
  · exact Nat.two_pow_pos _

theorem toQuotient_value (x : Binary64) : (x.toQuotient.1 : ℚ) / x.toQuotient.2 = x.value := by
  unfold toQuotient value
  split
  · next h =>
    lift x.exponent to ℕ using h with n
    simp
  · next h =>
    obtain ⟨n, hn⟩ := Int.eq_ofNat_of_zero_le (show 0 ≤ -x.exponent by omega)
    rw [hn, show x.exponent = -(n : Int) by omega, zpow_neg, zpow_natCast]
    simp [div_eq_mul_inv]

theorem le_iff : x.le y = true ↔ x.value ≤ y.value := by
  have hx : (0 : ℚ) < x.toQuotient.2 := mod_cast x.toQuotient_pos
  have hy : (0 : ℚ) < y.toQuotient.2 := mod_cast y.toQuotient_pos
  rw [← toQuotient_value, ← toQuotient_value, div_le_div_iff₀ hx hy, le, decide_eq_true_iff]
  exact_mod_cast Iff.rfl

theorem floor_eq (x : Binary64) : x.floor = ⌊x.value⌋₊ := by
  rw [← toQuotient_value, Nat.floor_div_eq_div, floor]

theorem inUnits_pos (hden : 0 < den) (num : Nat) (e : Int) : 0 < (inUnits num den e).2 := by
  unfold inUnits
  split
  · exact Nat.mul_pos hden (Nat.two_pow_pos _)
  · exact hden

theorem inUnits_value (num den : Nat) (e : Int) :
    ((inUnits num den e).1 : ℚ) / (inUnits num den e).2 = num / den / 2 ^ e := by
  unfold inUnits
  split
  · next h =>
    lift e to ℕ using h with n
    simp [div_div]
  · next h =>
    obtain ⟨n, hn⟩ := Int.eq_ofNat_of_zero_le (show 0 ≤ -e by omega)
    rw [hn, show e = -(n : Int) by omega, zpow_neg, zpow_natCast, div_inv_eq_mul]
    simp [div_mul_eq_mul_div]

/-! ## Integers -/

theorem roundHalfEven_near (hden : 0 < den) (num : Nat) :
    |(roundHalfEven num den : ℚ) - num / den| ≤ 1 / 2 := by
  have hpos : (0 : ℚ) < den := mod_cast hden
  have hdivide := Nat.div_add_mod num den
  have hrest := Nat.mod_lt num hden
  -- In wholes of the denominator, so that nothing but products of it occurs.
  have hwhole : den * (num / den + 1) = den * (num / den) + den := Nat.mul_succ ..
  have hnear : 2 * (den * roundHalfEven num den) ≤ 2 * num + den ∧
      2 * num ≤ 2 * (den * roundHalfEven num den) + den := by
    unfold roundHalfEven
    dsimp only
    split
    · omega
    · split
      · rw [hwhole]
        omega
      · split
        · omega
        · rw [hwhole]
          omega
  have hle : (2 : ℚ) * (den * roundHalfEven num den) ≤ 2 * num + den := mod_cast hnear.1
  have hge : (2 : ℚ) * num ≤ 2 * (den * roundHalfEven num den) + den := mod_cast hnear.2
  rw [abs_le]
  constructor
  · rw [neg_le_sub_iff_le_add, div_le_iff₀ hpos]
    linarith
  · rw [sub_le_iff_le_add, ← sub_le_iff_le_add', le_div_iff₀ hpos]
    linarith

theorem roundHalfEven_of_eq (hden : 0 < den) {k : Nat} (h : (num : ℚ) / den = k) :
    roundHalfEven num den = k := by
  have hnum : num = den * k := by
    have hne : (den : ℚ) ≠ 0 := mod_cast hden.ne'
    rw [div_eq_iff hne, mul_comm] at h
    exact_mod_cast h
  simp [roundHalfEven, hnum, Nat.mul_div_cancel_left k hden, hden]

/-! ## Exponents -/

/-- The exponent makes a mantissa of 53 bits, unless it is the least one. -/
theorem exponentFor_bounds (hnum : 0 < num) (hden : 0 < den) :
    (num : ℚ) / den < 2 ^ (exponentFor num den + 53) ∧
      (2 ^ (exponentFor num den + 52) ≤ (num : ℚ) / den ∨ exponentFor num den = minExponent) := by
  have hpos : (0 : ℚ) < den := mod_cast hden
  -- The quotient of the leading bits, up to a factor of two either way.
  have hbits : (2 : ℚ) ^ ((num.log2 : Int) - den.log2 - 1) < num / den ∧
      (num : ℚ) / den < 2 ^ ((num.log2 : Int) - den.log2 + 1) := by
    have hlow : (2 : ℚ) ^ (num.log2 : Int) ≤ num := mod_cast Nat.log2_self_le hnum.ne'
    have hhigh : (num : ℚ) < 2 ^ ((num.log2 : Int) + 1) := mod_cast Nat.lt_log2_self
    have hlow' : (2 : ℚ) ^ (den.log2 : Int) ≤ den := mod_cast Nat.log2_self_le hden.ne'
    have hhigh' : (den : ℚ) < 2 ^ ((den.log2 : Int) + 1) := mod_cast Nat.lt_log2_self
    constructor
    · rw [lt_div_iff₀ hpos]
      calc (2 : ℚ) ^ ((num.log2 : Int) - den.log2 - 1) * den
          < 2 ^ ((num.log2 : Int) - den.log2 - 1) * 2 ^ ((den.log2 : Int) + 1) := by gcongr
        _ = 2 ^ (num.log2 : Int) := by rw [← zpow_add₀ two_ne_zero]; congr 1; ring
        _ ≤ num := hlow
    · rw [div_lt_iff₀ hpos]
      calc (num : ℚ) < 2 ^ ((num.log2 : Int) + 1) := hhigh
        _ = 2 ^ ((num.log2 : Int) - den.log2 + 1) * 2 ^ (den.log2 : Int) := by
          rw [← zpow_add₀ two_ne_zero]; congr 1; ring
        _ ≤ 2 ^ ((num.log2 : Int) - den.log2 + 1) * den := by gcongr
  obtain ⟨hlow, hhigh⟩ := hbits
  have mono : ∀ {a b : Int}, a ≤ b → (2 : ℚ) ^ a ≤ 2 ^ b := zpow_le_zpow_right₀ one_le_two
  unfold exponentFor
  dsimp only
  generalize he : max ((num.log2 : Int) - den.log2 - 53) minExponent = e
  have hcond : (inUnits num den e).2 * Nat.pow 2 53 ≤ (inUnits num den e).1 ↔
      (2 : ℚ) ^ (e + 53) ≤ num / den := by
    have hunits : (0 : ℚ) < (inUnits num den e).2 := mod_cast inUnits_pos hden num e
    have htwo : (0 : ℚ) < 2 ^ e := by positivity
    rw [zpow_add₀ two_ne_zero, mul_comm ((2 : ℚ) ^ e), ← le_div_iff₀ htwo, ← inUnits_value,
      le_div_iff₀ hunits, mul_comm ((2 : ℚ) ^ (53 : Int))]
    exact_mod_cast Iff.rfl
  split
  · next h =>
    refine ⟨hhigh.trans_le (mono ?_), .inl ?_⟩
    · omega
    · rw [show e + 1 + 52 = e + 53 by ring]
      exact hcond.1 h
  · next h =>
    refine ⟨not_le.1 (mt hcond.2 h), ?_⟩
    by_cases hleast : e = minExponent
    · exact .inr hleast
    · exact .inl ((mono (by omega)).trans hlow.le)

/-- What is below `2 ^ p` has an exponent of `p - 53` at most. -/
theorem exponentFor_le (hnum : 0 < num) (hden : 0 < den) (hp : minExponent + 53 ≤ p)
    (h : (num : ℚ) / den < 2 ^ p) : exponentFor num den ≤ p - 53 := by
  rcases (exponentFor_bounds hnum hden).2 with hge | hleast
  · have hlt := (zpow_lt_zpow_iff_right₀ (one_lt_two (α := ℚ))).1 (hge.trans_lt h)
    omega
  · omega

/-! ## Rounding -/

theorem ofMantissa?_of_lt (m : Nat) (h : e < maxExponent) :
    ∃ x, ofMantissa? m e = some x ∧ x.value = m * 2 ^ e := by
  unfold ofMantissa?
  by_cases hm : m = Nat.pow 2 53
  · have hpow : ∀ n, ((Nat.pow 2 n : Nat) : ℚ) = 2 ^ n := fun n => Nat.cast_pow 2 n
    rw [if_pos hm]
    refine ⟨⟨Nat.pow 2 52, e + 1⟩, if_neg (not_lt.2 h), ?_⟩
    rw [hm, value, hpow, hpow, zpow_add₀ two_ne_zero]
    ring
  · rw [if_neg hm]
    exact ⟨⟨m, e⟩, if_neg (not_lt.2 h.le), rfl⟩

/-- A quotient below `2 ^ p` is moved by half a unit of `2 ^ (p - 53)` at most, and not at all if it
is a number of such units. -/
theorem ofQuotient?_of_lt (hden : 0 < den) (hp : minExponent + 53 ≤ p) (hp' : p ≤ maxExponent + 52)
    (h : (num : ℚ) / den < 2 ^ p) :
    ∃ x, ofQuotient? num den = some x ∧ |x.value - num / den| ≤ 2 ^ (p - 53) / 2 ∧
      ∀ k : Nat, (num : ℚ) / den = k * 2 ^ (p - 53) → x.value = num / den := by
  rcases num.eq_zero_or_pos with rfl | hnum
  · refine ⟨_, rfl, ?_, fun k _ => by simp [value]⟩
    simp only [value, Nat.cast_zero, zero_mul, zero_div, sub_zero, abs_zero]
    positivity
  · have hle := exponentFor_le hnum hden hp h
    have hx : ofQuotient? num den = ofMantissa? (roundHalfEven
        (inUnits num den (exponentFor num den)).1 (inUnits num den (exponentFor num den)).2)
        (exponentFor num den) := if_neg hnum.ne'
    generalize exponentFor num den = e at hle hx
    obtain ⟨x, hx', hvalue⟩ := ofMantissa?_of_lt (roundHalfEven (inUnits num den e).1
      (inUnits num den e).2) (show e < maxExponent by omega)
    have hunits := inUnits_pos hden num e
    have hquotient := inUnits_value num den e
    have htwo : (0 : ℚ) < 2 ^ e := by positivity
    refine ⟨x, hx.trans hx', ?_, fun k hk => ?_⟩
    · have hnear := roundHalfEven_near hunits (inUnits num den e).1
      rw [hquotient] at hnear
      calc |x.value - num / den|
          = |(roundHalfEven (inUnits num den e).1 (inUnits num den e).2 : ℚ) -
              num / den / 2 ^ e| * 2 ^ e := by
            rw [hvalue, ← abs_of_pos htwo, ← abs_mul, abs_of_pos htwo, sub_mul,
              div_mul_cancel₀ _ htwo.ne']
        _ ≤ 1 / 2 * 2 ^ e := by gcongr
        _ ≤ 1 / 2 * 2 ^ (p - 53) := by gcongr; exact one_le_two
        _ = 2 ^ (p - 53) / 2 := by ring
    · -- A unit is a whole number of the smaller ones in which the mantissa counts.
      obtain ⟨n, hn⟩ := Int.eq_ofNat_of_zero_le (show 0 ≤ p - 53 - e by omega)
      have hwhole : (num : ℚ) / den / 2 ^ e = ((k * 2 ^ n : Nat) : ℚ) := by
        rw [hk, show p - 53 = n + e by omega, zpow_add₀ two_ne_zero, ← mul_assoc,
          mul_div_cancel_right₀ _ htwo.ne']
        push_cast
        rw [zpow_natCast]
      rw [hvalue, roundHalfEven_of_eq hunits (hquotient.trans hwhole), ← hwhole,
        div_mul_cancel₀ _ htwo.ne']

/-- Whole numbers below `2 ^ 53` are values. -/
theorem exists_ofQuotient?_eq {n : Nat} (h : n < 2 ^ 53) :
    ∃ x, ofQuotient? n 1 = some x ∧ x.value = n := by
  have hlt : (n : ℚ) / (1 : Nat) < 2 ^ (53 : Int) := by
    rw [Nat.cast_one, div_one]
    exact_mod_cast h
  obtain ⟨x, hx, -, hexact⟩ := ofQuotient?_of_lt Nat.one_pos (by decide) (by decide) hlt
  refine ⟨x, hx, ?_⟩
  rw [hexact n (by simp), Nat.cast_one, div_one]

/-- A product is rounded as the quotient that it is. -/
theorem scale?_of_lt (x : Binary64) (num : Nat) (hden : 0 < den) (hp : minExponent + 53 ≤ p)
    (hp' : p ≤ maxExponent + 52) (h : x.value * (num / den) < 2 ^ p) :
    ∃ y, x.scale? num den = some y ∧ |y.value - x.value * (num / den)| ≤ 2 ^ (p - 53) / 2 ∧
      ∀ k : Nat, x.value * (num / den) = k * 2 ^ (p - 53) → y.value = x.value * (num / den) := by
  have hproduct : (((x.toQuotient.1 * num : Nat) : ℚ) / (x.toQuotient.2 * den : Nat)) =
      x.value * (num / den) := by
    rw [← toQuotient_value, div_mul_div_comm]
    push_cast
    rfl
  rw [← hproduct] at h ⊢
  exact ofQuotient?_of_lt (Nat.mul_pos x.toQuotient_pos hden) hp hp' h

end Muster.Binary64
