import Muster.Text.Number

/-!
# Percent coding

A password is put into a URL byte by byte: letters, digits and four marks stand for themselves,
every other byte of its UTF-8 form is a percent sign and two upper-case hexadecimal digits.

`percentEncode` is the escaping in `redis_url` of the program.
-/
namespace Muster.Text

/-- The bytes of a text in UTF-8. -/
def bytes (s : String) : List UInt8 := s.toList.flatMap String.utf8EncodeChar

/-- Letters, digits and the marks `-`, `_`, `.` and `~` need no escape. -/
def isUnreserved (b : UInt8) : Bool :=
  let c := Char.ofNat b.toNat
  c.isAlphanum || c == '-' || c == '_' || c == '.' || c == '~'

def hexDigit (n : Nat) : Char := Char.ofNat (if n < 10 then '0'.toNat + n else 'A'.toNat + (n - 10))

def escapeByte (b : UInt8) : List Char :=
  if isUnreserved b then [Char.ofNat b.toNat]
  else ['%', hexDigit (b.toNat / 16), hexDigit (b.toNat % 16)]

def percentEncode (s : String) : String := String.ofList ((bytes s).flatMap escapeByte)

/-- Turns each percent sign followed by two hexadecimal digits into a byte; all other characters
stand for their own bytes. -/
def percentDecode : List Char → List UInt8
  | '%' :: hi :: lo :: rest =>
    match digit? 16 hi, digit? 16 lo with
    | some h, some l => UInt8.ofNat (16 * h + l) :: percentDecode rest
    | _, _ => String.utf8EncodeChar '%' ++ percentDecode (hi :: lo :: rest)
  | c :: rest => String.utf8EncodeChar c ++ percentDecode rest
  | [] => []

end Muster.Text
