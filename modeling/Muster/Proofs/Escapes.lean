import Muster.Text.Blank
import Muster.Text.Percent
import Muster.Text.Utf8

/-!
# Escaped texts

A text is decoded from its bytes in UTF-8 (`Utf8.decode_bytes`), and its bytes are read back from
their escapes (`percentDecode_percentEncode`). An escaped text consists of `Plain` characters.
-/
namespace Muster.Text

/-! ## UTF-8 -/

namespace Utf8

variable {seen acc left lo hi v : Nat} {bs rest : List UInt8}

theorem toNat_byte (h : v < 256) : (UInt8.ofNat v).toNat = v := UInt8.toNat_ofNat_of_lt h

/-- One more byte of a character. -/
theorem continuation_cons (hbyte : v < 256) (hlo : lo ≤ v) (hhi : v ≤ hi) :
    continuation seen acc (left + 1) lo hi (UInt8.ofNat v :: rest) =
      continuation (seen + 1) (acc * 64 + v % 64) left 0x80 0xbf rest := by
  rw [continuation, toNat_byte hbyte, if_pos ⟨hlo, hhi⟩]

theorem first_of_lead {n : Nat} (hbyte : v < 256) (hhigh : 0x80 ≤ v)
    (hlead : lead? v = some (n, lo, hi)) :
    first (UInt8.ofNat v) rest = continuation 1 (leadBits n v) n lo hi rest := by
  rw [first, toNat_byte hbyte, if_neg (by omega), hlead]

/-- The second of three bytes is in the range that the first one leaves: the form is not overlong
and no surrogate is written. -/
theorem lead?_three (hlow : 0x7ff < v) (hhigh : v ≤ 0xffff) (hvalid : v < 0xd800 ∨ 0xdfff < v) :
    ∃ lo hi, lead? (v / 4096 % 16 + 0xe0) = some (2, lo, hi) ∧ lo ≤ v / 64 % 64 + 0x80 ∧
      v / 64 % 64 + 0x80 ≤ hi := by
  unfold lead?
  rw [if_neg (by omega)]
  split
  · exact ⟨_, _, rfl, by omega, by omega⟩
  · split
    · exact ⟨_, _, rfl, by omega, by omega⟩
    · rw [if_pos (by omega)]
      exact ⟨_, _, rfl, by omega, by omega⟩

theorem lead?_four (hlow : 0xffff < v) (hhigh : v < 0x110000) :
    ∃ lo hi, lead? (v / 262144 % 8 + 0xf0) = some (3, lo, hi) ∧ lo ≤ v / 4096 % 64 + 0x80 ∧
      v / 4096 % 64 + 0x80 ≤ hi := by
  unfold lead?
  rw [if_neg (by omega), if_neg (by omega), if_neg (by omega), if_neg (by omega)]
  split
  · exact ⟨_, _, rfl, by omega, by omega⟩
  · split
    · exact ⟨_, _, rfl, by omega, by omega⟩
    · rw [if_pos (by omega)]
      exact ⟨_, _, rfl, by omega, by omega⟩

theorem first_two (hlow : 0x7f < v) (hhigh : v ≤ 0x7ff) :
    first (UInt8.ofNat (v / 64 % 32 + 0xc0)) (UInt8.ofNat (v % 64 + 0x80) :: rest) =
      .ok (v, 2) := by
  have hlead : lead? (v / 64 % 32 + 0xc0) = some (1, 0x80, 0xbf) := by
    rw [lead?, if_pos (by omega)]
  have hvalue : (v / 64 % 32 + 0xc0) % 32 * 64 + (v % 64 + 0x80) % 64 = v := by omega
  rw [first_of_lead (by omega) (by omega) hlead,
    continuation_cons (by omega) (by omega) (by omega)]
  exact congrArg (fun value => Except.ok (value, 2)) hvalue

theorem first_three (hlow : 0x7ff < v) (hhigh : v ≤ 0xffff) (hvalid : v < 0xd800 ∨ 0xdfff < v) :
    first (UInt8.ofNat (v / 4096 % 16 + 0xe0)) (UInt8.ofNat (v / 64 % 64 + 0x80) ::
      UInt8.ofNat (v % 64 + 0x80) :: rest) = .ok (v, 3) := by
  obtain ⟨lo, hi, hlead, hlo, hhi⟩ := lead?_three hlow hhigh hvalid
  have hvalue : ((v / 4096 % 16 + 0xe0) % 16 * 64 + (v / 64 % 64 + 0x80) % 64) * 64 +
      (v % 64 + 0x80) % 64 = v := by omega
  rw [first_of_lead (by omega) (by omega) hlead, continuation_cons (by omega) hlo hhi,
    continuation_cons (by omega) (by omega) (by omega)]
  exact congrArg (fun value => Except.ok (value, 3)) hvalue

theorem first_four (hlow : 0xffff < v) (hhigh : v < 0x110000) :
    first (UInt8.ofNat (v / 262144 % 8 + 0xf0)) (UInt8.ofNat (v / 4096 % 64 + 0x80) ::
      UInt8.ofNat (v / 64 % 64 + 0x80) :: UInt8.ofNat (v % 64 + 0x80) :: rest) = .ok (v, 4) := by
  obtain ⟨lo, hi, hlead, hlo, hhi⟩ := lead?_four hlow hhigh
  have hvalue : (((v / 262144 % 8 + 0xf0) % 8 * 64 + (v / 4096 % 64 + 0x80) % 64) * 64 +
      (v / 64 % 64 + 0x80) % 64) * 64 + (v % 64 + 0x80) % 64 = v := by omega
  rw [first_of_lead (by omega) (by omega) hlead, continuation_cons (by omega) hlo hhi,
    continuation_cons (by omega) (by omega) (by omega),
    continuation_cons (by omega) (by omega) (by omega)]
  exact congrArg (fun value => Except.ok (value, 4)) hvalue

/-- A character is read from all its bytes. -/
theorem first_encode (c : Char) (rest : List UInt8) :
    ∃ b bs, String.utf8EncodeChar c = b :: bs ∧
      first b (bs ++ rest) = .ok (c.toNat, bs.length + 1) := by
  have hvalid : c.toNat < 0xd800 ∨ 0xdfff < c.toNat ∧ c.toNat < 0x110000 := c.valid
  have hval : c.val.toNat = c.toNat := rfl
  unfold String.utf8EncodeChar
  dsimp only
  rw [hval]
  split
  · refine ⟨_, [], rfl, ?_⟩
    rw [first, toNat_byte (by omega), if_pos (by omega)]
    rfl
  · split
    · exact ⟨_, [_], rfl, first_two (by omega) (by omega)⟩
    · split
      · exact ⟨_, [_, _], rfl, first_three (by omega) (by omega) (by omega)⟩
      · exact ⟨_, [_, _, _], rfl, first_four (by omega) (by omega)⟩

/-- The bytes of a character that was read are passed over. -/
theorem decodeFrom_skip (index : Nat) (bs rest : List UInt8) :
    decodeFrom index bs.length (bs ++ rest) = decodeFrom (index + bs.length) 0 rest := by
  induction bs generalizing index with
  | nil => rfl
  | cons b bs ih =>
    rw [List.length_cons, List.cons_append, decodeFrom, ih, Nat.add_assoc, Nat.add_comm 1]

theorem decodeFrom_encode (index : Nat) (cs : List Char) :
    decodeFrom index 0 (cs.flatMap String.utf8EncodeChar) = .ok cs := by
  induction cs generalizing index with
  | nil => rfl
  | cons c cs ih =>
    obtain ⟨b, bs, hbytes, hfirst⟩ := first_encode c (cs.flatMap String.utf8EncodeChar)
    rw [List.flatMap_cons, hbytes, List.cons_append, decodeFrom, hfirst]
    dsimp only
    rw [Nat.add_sub_cancel, decodeFrom_skip, ih]
    exact congrArg (fun d => Except.ok (d :: cs)) (Char.ofNat_toNat c)

theorem decode_bytes (s : String) : decode (bytes s) = .ok s := by
  rw [decode, bytes, decodeFrom_encode]
  exact congrArg Except.ok String.ofList_toList

end Utf8

theorem bytes_injective : Function.Injective bytes := by
  intro s t h
  have hs := Utf8.decode_bytes s
  rw [h, Utf8.decode_bytes t] at hs
  exact (Except.ok.inj hs).symm

/-! ## Escapes -/

theorem exists_number (b : UInt8) : ∃ v < 256, UInt8.ofNat v = b :=
  ⟨b.toNat, b.toNat_lt, UInt8.ofNat_toNat⟩

theorem digit?_hexDigit {d : Nat} (h : d < 16) : digit? 16 (hexDigit d) = some d := by
  have hall : ∀ d < 16, digit? 16 (hexDigit d) = some d := by decide
  exact hall d h

/-- A byte that needs no escape is its own character, which is not the sign of an escape. -/
theorem char_of_isUnreserved {b : UInt8} (h : isUnreserved b = true) :
    String.utf8EncodeChar (Char.ofNat b.toNat) = [b] ∧ Char.ofNat b.toNat ≠ '%' := by
  have hall : ∀ v < 256, isUnreserved (UInt8.ofNat v) = true →
      String.utf8EncodeChar (Char.ofNat (UInt8.ofNat v).toNat) = [UInt8.ofNat v] ∧
        Char.ofNat (UInt8.ofNat v).toNat ≠ '%' := by
    decide +kernel
  obtain ⟨v, hv, rfl⟩ := exists_number b
  exact hall v hv h

theorem percentDecode_escapeByte (b : UInt8) (cs : List Char) :
    percentDecode (escapeByte b ++ cs) = b :: percentDecode cs := by
  have hb : b.toNat < 256 := b.toNat_lt
  unfold escapeByte
  split
  · next h =>
    obtain ⟨hbytes, hsign⟩ := char_of_isUnreserved h
    rw [List.singleton_append, percentDecode, hbytes, List.singleton_append]
    intro hi lo rest hc
    exact absurd hc hsign
  · have hvalue : 16 * (b.toNat / 16) + b.toNat % 16 = b.toNat := Nat.div_add_mod _ _
    simp only [List.cons_append, List.nil_append]
    rw [percentDecode, digit?_hexDigit (by omega), digit?_hexDigit (by omega)]
    dsimp only
    rw [hvalue, UInt8.ofNat_toNat]

theorem percentDecode_escapes (bs : List UInt8) : percentDecode (bs.flatMap escapeByte) = bs := by
  induction bs with
  | nil => rfl
  | cons b bs ih => rw [List.flatMap_cons, percentDecode_escapeByte, ih]

theorem percentDecode_percentEncode (s : String) :
    percentDecode (percentEncode s).toList = bytes s := by
  rw [percentEncode, String.toList_ofList, percentDecode_escapes]

theorem percentEncode_injective : Function.Injective percentEncode := by
  intro s t h
  apply bytes_injective
  rw [← percentDecode_percentEncode, ← percentDecode_percentEncode, h]

/-- Not a blank, and none of the characters that delimit the parts of a URL. -/
def Plain (c : Char) : Prop := c ∉ ['@', '/', ':', '?', '#'] ∧ isBlank c = false

instance (c : Char) : Decidable (Plain c) := inferInstanceAs (Decidable (_ ∧ _))

theorem plain_of_mem_escapeByte {b : UInt8} {c : Char} (h : c ∈ escapeByte b) : Plain c := by
  have hsign : Plain '%' := by decide
  have hdigit : ∀ d < 16, Plain (hexDigit d) := by decide
  have hchar : ∀ v < 256, isUnreserved (UInt8.ofNat v) = true →
      Plain (Char.ofNat (UInt8.ofNat v).toNat) := by
    decide +kernel
  have hb : b.toNat < 256 := b.toNat_lt
  unfold escapeByte at h
  split at h
  · next hfree =>
    obtain ⟨v, hv, rfl⟩ := exists_number b
    rw [List.mem_singleton.1 h]
    exact hchar v hv hfree
  · simp only [List.mem_cons, List.not_mem_nil, or_false] at h
    rcases h with rfl | rfl | rfl
    · exact hsign
    · exact hdigit _ (by omega)
    · exact hdigit _ (by omega)

theorem plain_of_mem_percentEncode {s : String} {c : Char} (h : c ∈ (percentEncode s).toList) :
    Plain c := by
  rw [percentEncode, String.toList_ofList, List.mem_flatMap] at h
  obtain ⟨b, -, hc⟩ := h
  exact plain_of_mem_escapeByte hc

end Muster.Text
