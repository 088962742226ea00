import Muster.Yaml.Value

/-!
# Scalars as text

How a string is written as a scalar of a block: plain where it reads back as the same string, in
single quotes where plain would be something else, in double quotes where it holds characters
that have to be escaped. A string of several lines is a literal block.

`scalarLines` is the printing of strings where `run` and `watch` of the program print a view.
-/
namespace Muster.Yaml

/-- Words that some readers take for a boolean or for nothing, in any case. -/
def looseWords : List String :=
  ["y", "n", "yes", "no", "on", "off", "true", "false", "null", "~"]

/-- A plain scalar with this text is no string, or not for every reader. -/
def isAmbiguous (s : String) : Bool :=
  let lower := String.ofList (s.toList.map Char.toLower)
  looseWords.contains lower ||
    (match scalarValue? none s true with
      | some (.string _) => false
      | _ => true)

/-- Characters that stand for themselves in every style. -/
def isPrintable (c : Char) : Bool :=
  let n := c.toNat
  (0x20 ≤ n && n ≤ 0x7e) || (0xa0 ≤ n && n ≠ 0xfeff && n ≠ 0xfffe && n ≠ 0xffff)

/-- Characters that may not begin a plain scalar. -/
def beginsMarkup (c : Char) : Bool := "#,[]\x7b\x7d&*!|>\x27\"%@\x60".toList.contains c

/-- From here on nothing makes a plain scalar impossible; `gap` says that a blank goes before. -/
def isPlainRest (gap : Bool) : List Char → Bool
  | [] => true
  | [c] => c ≠ ':' && c ≠ ' ' && !(gap && c = '#')
  | c :: d :: rest =>
    !(c = ':' && d = ' ') && !(gap && c = '#') && isPlainRest (c = ' ') (d :: rest)

/-- A string can be written as it is. -/
def isPlain (s : String) : Bool :=
  match s.toList with
  | [] => false
  | c :: rest =>
    let dash := (c = '-' || c = '?') && (rest = [] || rest.head? = some ' ')
    c ≠ ' ' && !beginsMarkup c && !dash && !s.startsWith "---" && !s.startsWith "..."
      && isPlainRest false (c :: rest)

/-- A character between double quotes. -/
def escaped (c : Char) : List Char :=
  if c = '"' then ['\\', '"']
  else if c = '\\' then ['\\', '\\']
  else if c = '\t' then ['\\', 't']
  else if c = '\r' then ['\\', 'r']
  else if isPrintable c then [c]
  else
    let digits := (Text.numeral 16 c.toNat).map Char.toUpper
    let wide (n : Nat) : List Char := List.replicate (n - digits.length) '0' ++ digits
    if c.toNat ≤ 0xff then '\\' :: 'x' :: wide 2
    else if c.toNat ≤ 0xffff then '\\' :: 'u' :: wide 4
    else '\\' :: 'U' :: wide 8

/-- The lines of a scalar in a block; the first of them follows a key or a dash. -/
def scalarLines (s : String) : List String :=
  let cs := s.toList
  if cs.contains '\n' then
    "|-" :: (s.splitOn "\n").map fun l => if l = "" then "" else "  " ++ l
  else if !cs.all isPrintable then
    ["\"" ++ String.ofList (cs.flatMap escaped) ++ "\""]
  else if isPlain s && !isAmbiguous s then [s]
  else ["\x27" ++ s.replace "\x27" "\x27\x27" ++ "\x27"]

end Muster.Yaml
