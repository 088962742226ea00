import Mathlib.Algebra.Ring.Int.Defs
import Mathlib.Algebra.Ring.Nat
import Mathlib.Data.List.Induction
import Muster.Proofs.Codec

/-!
# Which texts are numbers

The decimal numbers that settings hold, said without a reader: any zeros, then the numeral of the
number, and a sign where one may stand. The readers take exactly these texts, as the number that was
written, if it is within their bounds.
-/
namespace Muster.Text

/-- Decimal digits that write a number. -/
def Digits (n : Nat) (cs : List Char) : Prop :=
  ∃ zeros, cs = List.replicate zeros '0' ++ numeral 10 n

/-- A plus may stand before the digits of a natural number. -/
inductive Unsigned (n : Nat) : List Char → Prop
  | plain {cs : List Char} (h : Digits n cs) : Unsigned n cs
  | plus {cs : List Char} (h : Digits n cs) : Unsigned n ('+' :: cs)

/-- Before the digits of an integer either sign may stand. -/
inductive Signed : Int → List Char → Prop
  | natural {n : Nat} {cs : List Char} (h : Unsigned n cs) : Signed n cs
  | minus {n : Nat} {cs : List Char} (h : Digits n cs) : Signed (-n) ('-' :: cs)

variable {n m bound : Nat} {c : Char} {cs : List Char}

/-! ## Digits -/

theorem digit?_eq_some {d : Nat} (h : digit? 10 c = some d) : d < 10 ∧ c = Nat.digitChar d := by
  obtain ⟨hv, hd⟩ := Option.filter_eq_some_iff.1 h
  have hd : d < 10 := by simpa using hd
  refine ⟨hd, Char.toNat_inj.1 ?_⟩
  rw [Nat.toNat_digitChar_of_lt_ten hd]
  -- A letter is worth ten at least.
  split at hv
  · next hc =>
    have h0 : 48 ≤ c.toNat := hc.1
    have h1 : c.toNat - 48 = d := by simpa using hv
    omega
  · split at hv
    · have h1 : c.toNat - 97 + 10 = d := by simpa using hv
      omega
    · split at hv
      · have h1 : c.toNat - 65 + 10 = d := by simpa using hv
        omega
      · cases hv

theorem exists_digit (h : isDigit 10 c = true) : ∃ d < 10, c = Nat.digitChar d := by
  obtain ⟨d, hd⟩ := Option.isSome_iff_exists.1 h
  exact ⟨d, digit?_eq_some hd⟩

theorem digitsValue_concat (radix : Nat) (cs : List Char) (c : Char) :
    digitsValue radix (cs ++ [c]) = digitsValue radix cs * radix + (digit? radix c).getD 0 := by
  simp [digitsValue]

theorem digitsValue_zeros (zeros : Nat) (cs : List Char) :
    digitsValue 10 (List.replicate zeros '0' ++ cs) = digitsValue 10 cs := by
  have hzeros : digitsValue 10 (List.replicate zeros '0') = 0 := by
    induction zeros with
    | zero => rfl
    | succ zeros ih =>
      rw [List.replicate_succ', digitsValue_concat, ih]
      rfl
  rw [digitsValue, List.foldl_append]
  exact congrArg (fun start => cs.foldl _ start) hzeros

theorem Digits.isDigit (h : Digits n cs) : ∀ c ∈ cs, isDigit 10 c = true := by
  obtain ⟨zeros, rfl⟩ := h
  intro c hc
  rcases List.mem_append.1 hc with hc | hc
  · rw [List.eq_of_mem_replicate hc]
    decide
  · exact isDigit_numeral (by decide) (by decide) c hc

theorem Digits.ne_nil (h : Digits n cs) : cs ≠ [] := by
  obtain ⟨zeros, rfl⟩ := h
  simp [numeral_ne_nil]

theorem Digits.value (h : Digits n cs) : digitsValue 10 cs = n := by
  obtain ⟨zeros, rfl⟩ := h
  rw [digitsValue_zeros, digitsValue_numeral (by decide) (by decide)]

/-- One more digit. -/
theorem Digits.concat {d : Nat} (h : Digits n cs) (hd : d < 10) :
    Digits (n * 10 + d) (cs ++ [Nat.digitChar d]) := by
  obtain ⟨zeros, rfl⟩ := h
  by_cases hn : n = 0
  · subst hn
    refine ⟨zeros + 1, ?_⟩
    rw [Nat.zero_mul, Nat.zero_add, numeral_of_lt hd, List.replicate_succ']
    rfl
  · refine ⟨zeros, ?_⟩
    have hjoin := Nat.toDigits_append_toDigits (by decide : 1 < 10) (Nat.pos_of_ne_zero hn) hd
    rw [Nat.toDigits_of_lt_base hd, Nat.mul_comm] at hjoin
    rw [List.append_assoc]
    exact congrArg _ hjoin

/-- Every list of digits writes its value. -/
theorem digits_digitsValue (hne : cs ≠ []) (hall : ∀ c ∈ cs, isDigit 10 c = true) :
    Digits (digitsValue 10 cs) cs := by
  -- On the digits from the last one on: the zeros before the numeral grow only while there is none.
  induction cs using List.reverseRecOn with
  | nil => exact absurd rfl hne
  | append_singleton cs c ih =>
    obtain ⟨d, hd⟩ := Option.isSome_iff_exists.1 (hall c (by simp))
    obtain ⟨hlt, rfl⟩ := digit?_eq_some hd
    rw [digitsValue_concat, hd, Option.getD_some]
    by_cases hcs : cs = []
    · subst hcs
      exact ⟨0, by simp [digitsValue, numeral_of_lt hlt]⟩
    · exact (ih hcs fun c hc => hall c (by simp [hc])).concat hlt

theorem natural?_eq_some_iff : natural? 10 cs = some n ↔ Digits n cs := by
  constructor
  · intro h
    unfold natural? at h
    split at h
    · next hcs =>
      cases h
      exact digits_digitsValue hcs.1 (List.all_eq_true.1 hcs.2)
    · cases h
  · intro h
    rw [natural?, if_pos ⟨h.ne_nil, List.all_eq_true.2 h.isDigit⟩, h.value]

/-- No sign is a digit. -/
theorem not_digits_cons (hc : isDigit 10 c = false) : ¬ Digits n (c :: cs) := by
  intro h
  rw [h.isDigit c List.mem_cons_self] at hc
  cases hc

theorem digits_numeral (n : Nat) : Digits n (numeral 10 n) := ⟨0, rfl⟩

/-! ## Signs -/

theorem unsigned?_eq_some_iff {s : String} :
    unsigned? bound s = some n ↔ Unsigned n s.toList ∧ n < bound := by
  rw [unsigned?, Option.filter_eq_some_iff, decide_eq_true_eq]
  refine and_congr_left fun _ => ?_
  split
  · next cs hs =>
    rw [hs, natural?_eq_some_iff]
    refine ⟨.plus, fun h => ?_⟩
    cases h with
    | plain h => exact absurd h (not_digits_cons (by decide))
    | plus h => exact h
  · next hs =>
    rw [natural?_eq_some_iff]
    refine ⟨.plain, fun h => ?_⟩
    generalize hcs : s.toList = cs at h
    cases h with
    | plain h => exact h
    | plus h => exact absurd hcs (hs _)

/-- A text writes one number at most. -/
theorem Unsigned.unique (h : Unsigned n cs) (h' : Unsigned m cs) : n = m := by
  have hread : ∀ k, Unsigned k cs → k < n + m + 1 →
      unsigned? (n + m + 1) (String.ofList cs) = some k := fun k hk hlt =>
    unsigned?_eq_some_iff.2 ⟨by rwa [String.toList_ofList], hlt⟩
  have hn := hread n h (by omega)
  rw [hread m h' (by omega)] at hn
  exact (Option.some.inj hn).symm

theorem unsigned?_eq_none_iff {s : String} :
    unsigned? bound s = none ↔ ∀ n < bound, ¬ Unsigned n s.toList := by
  simp only [Option.eq_none_iff_forall_ne_some, ne_eq, unsigned?_eq_some_iff, not_and]
  exact ⟨fun h n hn hs => h n hs hn, fun h n hs hn => h n hn hs⟩

theorem Signed.ne_nil {i : Int} (h : Signed i cs) : cs ≠ [] := by
  rintro rfl
  cases h with
  | natural h =>
    cases h with
    | plain h => exact h.ne_nil rfl

theorem signed?_eq_some_iff {bits : Nat} {i : Int} {s : String} :
    signed? bits s = some i ↔
      Signed i s.toList ∧ -(2 ^ (bits - 1)) ≤ i ∧ i < 2 ^ (bits - 1) := by
  rw [signed?, Option.filter_eq_some_iff, decide_eq_true_eq]
  refine and_congr_left fun _ => ?_
  split
  · next cs hs =>
    rw [hs, Option.map_eq_some_iff]
    constructor
    · rintro ⟨n, hn, rfl⟩
      exact .natural (.plus (natural?_eq_some_iff.1 hn))
    · intro h
      cases h with
      | @natural n _ h =>
        refine ⟨n, natural?_eq_some_iff.2 ?_, rfl⟩
        cases h with
        | plain h => exact absurd h (not_digits_cons (by decide))
        | plus h => exact h
  · next cs hs =>
    rw [hs, Option.map_eq_some_iff]
    constructor
    · rintro ⟨_, hread, rfl⟩
      obtain ⟨n, hn, hcast⟩ := Option.bind_eq_some_iff.1 hread
      cases hcast
      exact .minus (natural?_eq_some_iff.1 hn)
    · intro h
      cases h with
      | natural h =>
        cases h with
        | plain h => exact absurd h (not_digits_cons (by decide))
      | minus h =>
        exact ⟨_, Option.bind_eq_some_iff.2 ⟨_, natural?_eq_some_iff.2 h, rfl⟩, rfl⟩
  · next hplus hminus =>
    rw [Option.map_eq_some_iff]
    constructor
    · rintro ⟨n, hn, rfl⟩
      exact .natural (.plain (natural?_eq_some_iff.1 hn))
    · intro h
      generalize hcs : s.toList = cs at h
      cases h with
      | @natural n _ h =>
        refine ⟨n, natural?_eq_some_iff.2 ?_, rfl⟩
        cases h with
        | plain h => exact h
        | plus h => exact absurd hcs (hplus _)
      | minus h => exact absurd hcs (hminus _)

end Muster.Text
