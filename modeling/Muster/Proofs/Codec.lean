import Muster.Proofs.Spelling

/-!
# What is written can be read

The canonical text of an address is one of its spellings, so that it reads as the same address if it
has no flow label, and the message of an event on such an address decodes to the event.
-/
namespace Muster

/-! ## Numerals -/

namespace Text

variable {radix n : Nat}

theorem digit?_digitChar {d : Nat} (hd : d < radix) (hr : radix ≤ 16) :
    digit? radix (Nat.digitChar d) = some d := by
  have hvalue : ∀ d < 16, digit? 16 (Nat.digitChar d) = some d := by decide
  have h := hvalue d (by omega)
  unfold digit? at h ⊢
  generalize (if '0' ≤ Nat.digitChar d ∧ Nat.digitChar d ≤ '9' then _ else _ : Option Nat) = v at h
  obtain ⟨hv, -⟩ := Option.filter_eq_some_iff.1 h
  simp [hv, hd]

theorem numeral_of_lt (h : n < radix) : numeral radix n = [Nat.digitChar n] :=
  Nat.toDigits_of_lt_base h

theorem numeral_of_le (hr : 1 < radix) (h : radix ≤ n) :
    numeral radix n = numeral radix (n / radix) ++ [Nat.digitChar (n % radix)] :=
  Nat.toDigits_of_base_le hr h

theorem isDigit_numeral (hr : 1 < radix) (hr' : radix ≤ 16) :
    ∀ c ∈ numeral radix n, isDigit radix c = true := by
  induction n using Nat.strongRecOn with
  | _ n ih =>
    have hdigit : ∀ d < radix, isDigit radix (Nat.digitChar d) = true := fun d hd => by
      simp [isDigit, digit?_digitChar hd hr']
    by_cases h : n < radix
    · simpa [numeral_of_lt h] using hdigit n h
    · rw [numeral_of_le hr (by omega)]
      intro c hc
      rcases List.mem_append.1 hc with hc | hc
      · exact ih (n / radix) (Nat.div_lt_self (by omega) hr) c hc
      · rw [List.mem_singleton] at hc
        exact hc ▸ hdigit _ (Nat.mod_lt _ (by omega))

theorem digitsValue_numeral (hr : 1 < radix) (hr' : radix ≤ 16) :
    digitsValue radix (numeral radix n) = n := by
  induction n using Nat.strongRecOn with
  | _ n ih =>
    by_cases h : n < radix
    · simp [numeral_of_lt h, digitsValue, digit?_digitChar h hr']
    · have hdiv := ih (n / radix) (Nat.div_lt_self (by omega) hr)
      rw [digitsValue] at hdiv ⊢
      rw [numeral_of_le hr (by omega), List.foldl_append, hdiv]
      simp only [List.foldl_cons, List.foldl_nil,
        digit?_digitChar (Nat.mod_lt n (by omega : 0 < radix)) hr', Option.getD_some]
      rw [Nat.mul_comm]
      exact Nat.div_add_mod n radix

theorem numeral_ne_nil : numeral radix n ≠ [] := Nat.toDigits_ne_nil

/-- Only the numeral of zero begins with a zero. -/
theorem head?_numeral (hr : 1 < radix) (hr' : radix ≤ 16) (h : 1 < (numeral radix n).length) :
    (numeral radix n).head? ≠ some '0' := by
  induction n using Nat.strongRecOn with
  | _ n ih =>
    by_cases hn : n < radix
    · simp [numeral_of_lt hn] at h
    · obtain ⟨c, cs, hc⟩ := List.exists_cons_of_ne_nil (@numeral_ne_nil radix (n / radix))
      have hhead : (numeral radix n).head? = (numeral radix (n / radix)).head? := by
        rw [numeral_of_le hr (by omega), hc]
        rfl
      rw [hhead]
      by_cases hdiv : n / radix < radix
      · have hpos : 0 < n / radix := Nat.div_pos (by omega) (by omega)
        rw [numeral_of_lt hdiv]
        have hzero : ∀ d < 16, 0 < d → Nat.digitChar d ≠ '0' := by decide
        simpa using hzero _ (by omega) hpos
      · refine ih (n / radix) (Nat.div_lt_self (by omega) hr) ?_
        rw [numeral_of_le hr (by omega), List.length_append]
        have hpos : 0 < (numeral radix (n / radix / radix)).length := Nat.length_toDigits_pos
        simp only [List.length_singleton]
        omega

end Text

namespace Groups

/-- The run that is shortened consists of zeros. -/
theorem longestZeroRun_zeros (gs : List UInt16) :
    (gs.drop (longestZeroRun gs).1).take (longestZeroRun gs).2 =
      List.replicate (longestZeroRun gs).2 0 ∧
    (longestZeroRun gs).1 + (longestZeroRun gs).2 ≤ gs.length := by
  have hrun : ∀ gs : List UInt16,
      gs.take (zeroRun gs) = List.replicate (zeroRun gs) 0 ∧ zeroRun gs ≤ gs.length := by
    intro gs
    refine ⟨?_, (List.takeWhile_sublist _).length_le⟩
    rw [zeroRun, ← List.prefix_iff_eq_take.1 (List.takeWhile_prefix _), List.eq_replicate_iff]
    exact ⟨rfl, fun g hg => by simpa using List.all_eq_true.1 List.all_takeWhile g hg⟩
  unfold longestZeroRun
  suffices h : ∀ (is : List Nat) (best : Nat × Nat), (∀ i ∈ is, i < gs.length) →
      (gs.drop best.1).take best.2 = List.replicate best.2 0 ∧ best.1 + best.2 ≤ gs.length →
      let r := is.foldl (fun best i =>
        let n := zeroRun (gs.drop i)
        if best.2 < n then (i, n) else best) best
      (gs.drop r.1).take r.2 = List.replicate r.2 0 ∧ r.1 + r.2 ≤ gs.length by
    exact h _ (0, 0) (by simp) (by simp)
  intro is
  induction is with
  | nil => exact fun _ _ h => h
  | cons i is ih =>
    intro best hi hbest
    refine ih _ (fun j hj => hi j (List.mem_cons_of_mem _ hj)) ?_
    dsimp only
    split
    · obtain ⟨htake, hle⟩ := hrun (gs.drop i)
      have hlt := hi i List.mem_cons_self
      rw [List.length_drop] at hle
      exact ⟨htake, by simp only; omega⟩
    · exact hbest

end Groups

/-! ## Addresses -/

namespace Address

open Text

theorem numeral_numeral {radix n : Nat} (hr : 1 < radix) (hr' : radix ≤ 16) :
    Numeral radix n (numeral radix n) :=
  ⟨numeral_ne_nil, isDigit_numeral hr hr', digitsValue_numeral hr hr'⟩

theorem octet_numeral (o : UInt8) : Octet o (numeral 10 o.toNat) := by
  have hlt : o.toNat < 256 := o.toNat_lt
  refine ⟨numeral_numeral (by decide) (by decide),
    (Nat.length_toDigits_le_iff (by decide) (by decide)).2 (by omega), ?_⟩
  by_cases hone : (numeral 10 o.toNat).length = 1
  · exact .inl hone
  · have hpos : 0 < (numeral 10 o.toNat).length := Nat.length_toDigits_pos
    exact .inr (head?_numeral (by decide) (by decide) (by omega))

theorem group_numeral (g : UInt16) : Group g (numeral 16 g.toNat) := by
  have hlt : g.toNat < 65536 := g.toNat_lt
  exact ⟨numeral_numeral (by decide) (by decide),
    (Nat.length_toDigits_le_iff (by decide) (by decide)).2 (by omega)⟩

theorem quad_text (o : Octets) : Quad o o.text := by
  obtain ⟨⟨list⟩, hsize⟩ := o
  match list, hsize with
  | [a, b, c, d], _ =>
    have htext : Octets.text ⟨⟨[a, b, c, d]⟩, rfl⟩ =
        numeral 10 a.toNat ++ '.' :: (numeral 10 b.toNat ++ '.' :: (numeral 10 c.toNat ++
          '.' :: numeral 10 d.toNat)) := by
      simp [Octets.text, List.intercalate, List.intersperse, Vector.toList]
    rw [htext]
    exact .octets (octet_numeral a) (octet_numeral b) (octet_numeral c) (octet_numeral d)

theorem joined_cons_cons (g k : UInt16) (gs : List UInt16) :
    Groups.joined (g :: k :: gs) = numeral 16 g.toNat ++ ':' :: Groups.joined (k :: gs) := by
  simp [Groups.joined, List.intercalate]

theorem side_joined (quad : Bool) (gs : List UInt16) : Side quad gs (Groups.joined gs) := by
  cases gs with
  | nil => exact .inl ⟨rfl, rfl⟩
  | cons g gs =>
    refine .inr ?_
    induction gs generalizing g with
    | nil =>
      have htext : Groups.joined [g] = numeral 16 g.toNat := by
        simp [Groups.joined, List.intercalate]
      rw [htext]
      exact .one (group_numeral g)
    | cons k gs ih =>
      rw [joined_cons_cons]
      exact .cons (group_numeral g) (ih k)

theorem pair_halves (g : UInt16) : Parser.pair (g >>> 8).toUInt8 g.toUInt8 = g := by
  apply UInt16.toNat_inj.1
  have hlt : g.toNat < 65536 := g.toNat_lt
  have hhigh : g.toNat >>> 8 < 256 := by
    rw [Nat.shiftRight_eq_div_pow]
    omega
  have hlow : g.toNat % 256 < 2 ^ 8 := Nat.mod_lt _ (by decide)
  have hsum : (g.toNat >>> 8) <<< 8 + g.toNat % 256 = g.toNat := by
    rw [Nat.shiftRight_eq_div_pow, Nat.shiftLeft_eq]
    omega
  have hshift : (g.toNat >>> 8) <<< 8 < 65536 := by omega
  have hor := Nat.shiftLeft_add_eq_or_of_lt hlow (g.toNat >>> 8)
  simp [Parser.pair, Nat.mod_eq_of_lt hhigh, Nat.mod_eq_of_lt hshift, ← hor, hsum]

/-- The canonical text of a host is one of its spellings. -/
theorem host_text (g : Groups) : Host g g.text := by
  unfold Groups.text
  cases hm : Groups.mapped? g with
  | some o =>
    unfold Groups.mapped? at hm
    split at hm
    · next htake =>
      cases hm
      have hdrop : g.toList.drop 6 = [g[6], g[7]] := by
        rw [List.drop_eq_getElem_cons (by simp), List.drop_eq_getElem_cons (by simp),
          List.drop_of_length_le (by simp)]
        simp
      have hlast : Joined true [g[6], g[7]] (Octets.text
          #v[(g[6] >>> 8).toUInt8, g[6].toUInt8, (g[7] >>> 8).toUInt8, g[7].toUInt8]) := by
        have hquad := @Joined.quad true _ _ _ _ _ (quad_text
          #v[(g[6] >>> 8).toUInt8, g[6].toUInt8, (g[7] >>> 8).toUInt8, g[7].toUInt8]) rfl
        rwa [pair_halves, pair_halves] at hquad
      have hback := Joined.cons (group_numeral 0xffff) hlast
      refine .shortened (.inl ⟨rfl, rfl⟩) (.inr hback) (Nat.succ_pos 4) ?_
      rw [← List.take_append_drop 6 g.toList, htake, hdrop]
      rfl
    · cases hm
  | none =>
    dsimp only
    generalize hr : Groups.longestZeroRun g.toList = r
    obtain ⟨start, len⟩ := r
    obtain ⟨hzeros, hle⟩ := Groups.longestZeroRun_zeros g.toList
    rw [hr] at hzeros hle
    dsimp only at hzeros hle ⊢
    split
    · next hlen =>
      have hg : g.toList = g.toList.take start ++ List.replicate len 0 ++
          g.toList.drop (start + len) := by
        rw [← hzeros, List.append_assoc, ← List.drop_drop, List.take_append_drop,
          List.take_append_drop]
      rw [List.append_assoc]
      exact .shortened (side_joined _ _) (side_joined _ _) (by omega) hg
    · refine .full ((side_joined true g.toList).resolve_left ?_)
      rintro ⟨hnil, -⟩
      have hsize : g.toList.length = 8 := by simp
      simp [hnil] at hsize

theorem scope_text (n : UInt32) : Scope n (if n = 0 then [] else '%' :: numeral 10 n.toNat) := by
  split
  · next hn =>
    subst hn
    exact .none
  · exact .some (numeral_numeral (by decide) (by decide))

/-- The address has no flow label; none that is read has one. -/
def isPlain : Address → Bool
  | v4 _ _ => true
  | v6 _ _ flow _ => flow == 0

theorem Written.isPlain {a : Address} {cs : List Char} (h : Written a cs) : a.isPlain = true := by
  cases h <;> rfl

theorem isPlain_of_ofText? {s : String} {a : Address} (h : ofText? s = some a) :
    a.isPlain = true :=
  (ofText?_eq_some_iff.1 h).isPlain

/-- An address that can be read is read from its own text. -/
theorem ofText?_text {a : Address} (h : a.isPlain = true) : ofText? a.text = some a := by
  rw [ofText?_eq_some_iff, text, String.toList_ofList]
  have hport : ∀ p : UInt16, Numeral 10 p.toNat (numeral 10 p.toNat) := fun p =>
    numeral_numeral (by decide) (by decide)
  cases a with
  | v4 o p => exact .v4 (quad_text o) (hport p)
  | v6 g p flow n =>
    obtain rfl : flow = 0 := by simpa [isPlain] using h
    have htext : chars (.v6 g p 0 n) = '[' :: (g.text ++
        ((if n = 0 then [] else '%' :: numeral 10 n.toNat) ++
          ']' :: ':' :: numeral 10 p.toNat)) := by
      by_cases hn : n = 0 <;> simp [chars, hn]
    rw [htext]
    exact .v6 (host_text g) (scope_text n) (hport p)

end Address

/-! ## Events -/

namespace Event

theorem splitLast_eq_none_iff {cs : List Char} : splitLast cs = none ↔ '-' ∉ cs := by
  induction cs with
  | nil => simp [splitLast]
  | cons c cs ih =>
    rw [List.mem_cons, not_or, ← ih]
    cases hs : splitLast cs with
    | none => by_cases hc : c = '-' <;> simp [splitLast, hs, hc, eq_comm]
    | some r => simp [splitLast, hs]

theorem splitLast_append {before after : List Char} (h : '-' ∉ after) :
    splitLast (before ++ '-' :: after) = some (before, after) := by
  induction before with
  | nil => simp [splitLast, splitLast_eq_none_iff.2 h]
  | cons c before ih => simp [splitLast, ih]

/-- The message of an event decodes to the event. -/
theorem decode_encode {e : Event} (h : e.address.isPlain = true) :
    decode e.encode = .ok e := by
  have hkind : '-' ∉ e.kind.text.toList := by cases e.kind <;> decide
  have htext : e.encode.toList = e.address.chars ++ '-' :: e.kind.text.toList := by
    simp [encode, Address.text]
  have hofText : EventKind.ofText? e.kind.text = some e.kind := by
    cases e.kind <;> decide
  have haddress : Address.ofText? (String.ofList e.address.chars) = some e.address :=
    Address.ofText?_text h
  simp [decode, htext, splitLast_append hkind, hofText, haddress]

end Event

end Muster
