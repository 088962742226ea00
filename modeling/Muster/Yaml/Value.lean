import Muster.Decimal
import Muster.Yaml.Event

/-!
# Values

The values of a document, and what a scalar stands for. A plain scalar is null, a boolean, an
integer, a float or else a string, by its text; a quoted one is a string; a tag of the schema
asks for one of these kinds.
-/
namespace Muster.Yaml

inductive Number where
  | integer (value : Int)
  | float (negative : Bool) (value : Binary64)
  | infinity (negative : Bool)
  | nan
deriving DecidableEq, Repr

namespace Number

def text : Number → String
  | integer i => Text.decimalInt i
  | float negative x => Decimal.text negative x
  | infinity false => ".inf"
  | infinity true => "-.inf"
  | nan => ".nan"

/-- Equality as keys: zeros of either sign are one. -/
def same : Number → Number → Bool
  | float n x, float m y => x == y && (n == m || x.mantissa == 0)
  | a, b => a == b

end Number

inductive Value where
  | null
  | bool (value : Bool)
  | number (value : Number)
  | string (value : String)
  | sequence (items : List Value)
  | mapping (pairs : List (Value × Value))
  | tagged (tag : String) (value : Value)
deriving Repr, Inhabited

namespace Value

mutual

/-- Equality as keys: the order of pairs does not matter. -/
def same : Value → Value → Bool
  | null, null => true
  | bool a, bool b => a == b
  | number a, number b => a.same b
  | string a, string b => a == b
  | sequence xs, sequence ys => sameItems xs ys
  | mapping ps, mapping qs => ps.length == qs.length && samePairs ps qs
  | tagged s v, tagged t w => s == t && same v w
  | _, _ => false

def sameItems : List Value → List Value → Bool
  | [], [] => true
  | x :: xs, y :: ys => same x y && sameItems xs ys
  | _, _ => false

def samePairs : List (Value × Value) → List (Value × Value) → Bool
  | [], _ => true
  | (k, v) :: ps, qs => qs.any (fun q => same k q.1 && same v q.2) && samePairs ps qs

end

end Value

/-! ## Plain scalars -/

def isNull (s : String) : Bool := ["null", "Null", "NULL", "~"].contains s

def bool? (s : String) : Option Bool :=
  if ["true", "True", "TRUE"].contains s then some true
  else if ["false", "False", "FALSE"].contains s then some false
  else none

/-- Digits with a zero in front, which are no number. -/
def isPadded (digits : List Char) : Bool :=
  match digits with
  | '0' :: rest => !rest.isEmpty && rest.all (·.isDigit)
  | _ => false

/-- An unsigned integer, decimal or with a radix mark. -/
def magnitude? (cs : List Char) : Option Nat :=
  match cs with
  | '0' :: 'x' :: rest => Text.natural? 16 rest
  | '0' :: 'o' :: rest => Text.natural? 8 rest
  | '0' :: 'b' :: rest => Text.natural? 2 rest
  | cs => if isPadded cs then none else Text.natural? 10 cs

/-- The integer that a text writes, with an optional sign. -/
def integer? (s : String) : Option Int :=
  match s.toList with
  | '+' :: cs => (magnitude? cs).map Int.ofNat
  | '-' :: cs => (magnitude? cs).map fun n => -(n : Int)
  | cs => (magnitude? cs).map Int.ofNat

/-- What an integer that is written in a document amounts to. -/
inductive IntegerKind where
  /-- It fits into 64 bits, signed or not. -/
  | fits
  /-- It needs up to 128 bits; there is no value for it. -/
  | wide
  /-- It is longer still, and no integer. -/
  | huge

def integerKind (i : Int) : IntegerKind :=
  if -Int.pow 2 63 ≤ i ∧ i < Int.pow 2 64 then .fits
  else if -Int.pow 2 127 ≤ i ∧ i < Int.pow 2 128 then .wide
  else .huge

/-- The digits of a decimal number without a sign: their value and the power of ten. -/
def decimal? (cs : List Char) : Option (Nat × Int) :=
  let whole := cs.takeWhile (·.isDigit)
  let rest := cs.dropWhile (·.isDigit)
  let (places, rest) := match rest with
    | '.' :: more => (more.takeWhile (·.isDigit), more.dropWhile (·.isDigit))
    | rest => ([], rest)
  let digits := whole ++ places
  let exponent? : Option Int := match rest with
    | [] => some 0
    | e :: more =>
      if e = 'e' ∨ e = 'E' then
        match more with
        | '+' :: ds => (Text.natural? 10 ds).map Int.ofNat
        | '-' :: ds => (Text.natural? 10 ds).map fun n => -(n : Int)
        | ds => (Text.natural? 10 ds).map Int.ofNat
      else none
  if digits = [] then none
  else exponent?.map fun e => (Text.digitsValue 10 digits, e - places.length)

/-- The float that a text writes; one beyond the largest value is none. -/
def float? (s : String) : Option Number :=
  let finite (negative : Bool) (cs : List Char) : Option Number := do
    let (digits, exponent) ← decimal? cs
    let x ← Decimal.read? digits exponent
    pure (.float negative x)
  let unsigned := match s.toList with
    | '+' :: cs => cs
    | cs => cs
  if [".inf", ".Inf", ".INF"].contains (String.ofList unsigned) then some (.infinity false)
  else if ["-.inf", "-.Inf", "-.INF"].contains s then some (.infinity true)
  else if [".nan", ".NaN", ".NAN"].contains s then some .nan
  else
    match s.toList with
    | '+' :: cs => finite false cs
    | '-' :: cs => finite true cs
    | cs => finite false cs

/-- Digits with a zero in front, after an optional sign. -/
def isPaddedText (s : String) : Bool :=
  match s.toList with
  | '+' :: cs => isPadded cs
  | '-' :: cs => isPadded cs
  | cs => isPadded cs

/-- The value of a plain scalar, unless it is an integer for which there is none. -/
def plainValue? (s : String) : Option Value :=
  if s = "" ∨ isNull s then some .null
  else
    match bool? s with
    | some b => some (.bool b)
    | none =>
      let beyond : Value :=
        match if isPaddedText s then none else float? s with
        | some x => .number x
        | none => .string s
      match integer? s with
      | none => some beyond
      | some i =>
        match integerKind i with
        | .fits => some (.number (.integer i))
        | .wide => none
        | .huge => some beyond

/-- The value of a scalar with a tag of the schema, or one without a tag. -/
def scalarValue? (tag : Option String) (s : String) (plain : Bool) : Option Value :=
  if tag = some "tag:yaml.org,2002:bool" then (bool? s).map .bool
  else if tag = some "tag:yaml.org,2002:int" then
    match integer? s with
    | none => none
    | some i =>
      match integerKind i with
      | .fits => some (.number (.integer i))
      | _ => none
  else if tag = some "tag:yaml.org,2002:float" then (float? s).map .number
  else if tag = some "tag:yaml.org,2002:null" then if isNull s then some .null else none
  else if tag.isSome then some (.string s)
  else if plain then plainValue? s
  else some (.string s)

end Muster.Yaml
