/-!
# UTF-8

Decoding of bytes, with the place and kind of the first fault. A fault is a maximal sequence of
bytes that cannot be continued to a character, or a character that the input breaks off.

`decode` is the reading of payloads in `payload_text` of the program, and of its settings file.
-/
namespace Muster.Text.Utf8

/-- The first fault of a byte sequence: how many bytes before it are well formed, and how many
bytes it spans, or nothing if the input ends inside a character. -/
structure Fault where
  validUpTo : Nat
  span : Option Nat
deriving DecidableEq, Repr

def Fault.message (f : Fault) : String :=
  match f.span with
  | some n => "invalid utf-8 sequence of " ++ toString n ++ " bytes from index "
      ++ toString f.validUpTo
  | none => "incomplete utf-8 byte sequence from index " ++ toString f.validUpTo

/-- The bytes after a lead byte: how many there are, and the range of the first of them. The
ranges shut out overlong forms, surrogates and code points above U+10FFFF. -/
def lead? (b : Nat) : Option (Nat × Nat × Nat) :=
  if 0xc2 ≤ b ∧ b ≤ 0xdf then some (1, 0x80, 0xbf)
  else if b = 0xe0 then some (2, 0xa0, 0xbf)
  else if b = 0xed then some (2, 0x80, 0x9f)
  else if 0xe1 ≤ b ∧ b ≤ 0xef then some (2, 0x80, 0xbf)
  else if b = 0xf0 then some (3, 0x90, 0xbf)
  else if 0xf1 ≤ b ∧ b ≤ 0xf3 then some (3, 0x80, 0xbf)
  else if b = 0xf4 then some (3, 0x80, 0x8f)
  else none

/-- The value bits of a lead byte with `n` bytes after it. -/
def leadBits (n b : Nat) : Nat := b % Nat.pow 2 (6 - n)

/-- Takes `left` more bytes of a character of which `seen` bytes and the value `acc` were read. -/
def continuation (seen acc : Nat) : (left : Nat) → (lo hi : Nat) → List UInt8 →
    Except (Option Nat) (Nat × Nat)
  | 0, _, _, _ => .ok (acc, seen)
  | left + 1, lo, hi, bs =>
    match bs with
    | [] => .error none
    | b :: rest =>
      if lo ≤ b.toNat ∧ b.toNat ≤ hi then
        continuation (seen + 1) (acc * 64 + b.toNat % 64) left 0x80 0xbf rest
      else .error (some seen)

/-- The code point at the head of a non-empty list and the number of its bytes. -/
def first (b : UInt8) (rest : List UInt8) : Except (Option Nat) (Nat × Nat) :=
  if b.toNat < 0x80 then .ok (b.toNat, 1)
  else match lead? b.toNat with
    | none => .error (some 1)
    | some (n, lo, hi) => continuation 1 (leadBits n b.toNat) n lo hi rest

/-- Decodes from the byte at `index`; `skip` bytes belong to the character before. -/
def decodeFrom (index skip : Nat) : List UInt8 → Except Fault (List Char)
  | [] => .ok []
  | b :: rest =>
    match skip with
    | skip + 1 => decodeFrom (index + 1) skip rest
    | 0 =>
      match first b rest with
      | .error span => .error ⟨index, span⟩
      | .ok (code, len) => do
        let cs ← decodeFrom (index + 1) (len - 1) rest
        .ok (Char.ofNat code :: cs)

def decode (bs : List UInt8) : Except Fault String :=
  (decodeFrom 0 0 bs).map String.ofList

end Muster.Text.Utf8
