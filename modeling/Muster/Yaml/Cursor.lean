/-!
# Reading positions

A place in a YAML text: what is left to read, and the line, column and index reached. Line breaks
are a carriage return, a line feed, both together, and three Unicode separators; all but the last
two of these read as a line feed.
-/
namespace Muster.Yaml

/-- Characters that a YAML text may hold. -/
def isAllowed (c : Char) : Bool :=
  let n := c.toNat
  n == 0x09 || n == 0x0a || n == 0x0d || (0x20 ≤ n && n ≤ 0x7e) || n == 0x85
    || (0xa0 ≤ n && n ≤ 0xd7ff) || (0xe000 ≤ n && n ≤ 0xfffd) || 0x10000 ≤ n

def isBreak (c : Char) : Bool :=
  c == '\n' || c == '\r' || c.toNat == 0x85 || c.toNat == 0x2028 || c.toNat == 0x2029

def isSpace (c : Char) : Bool := c == ' ' || c == '\t'

def isGap (c : Char) : Bool := isSpace c || isBreak c

/-- Letters, digits, the underscore and the hyphen. -/
def isWord (c : Char) : Bool := c.isAlphanum || c == '_' || c == '-'

/-- Nothing follows, or a blank, or a line break. -/
def atGap : List Char → Bool
  | [] => true
  | c :: _ => isGap c

/-- Nothing follows, or a line break. -/
def atLineEnd : List Char → Bool
  | [] => true
  | c :: _ => isBreak c

structure Cursor where
  rest : List Char
  index : Nat := 0
  line : Nat := 0
  column : Nat := 0
deriving Repr

namespace Cursor

/-- Goes on by `n` characters of the same line. -/
def advance (c : Cursor) (n : Nat) : Cursor :=
  { c with rest := c.rest.drop n, index := c.index + n, column := c.column + n }

/-- Goes over one line break, and tells how it reads. Without one it stays. -/
def newline (c : Cursor) : List Char × Cursor :=
  let past (n : Nat) : Cursor :=
    { rest := c.rest.drop n, index := c.index + n, line := c.line + 1, column := 0 }
  match c.rest with
  | '\r' :: '\n' :: _ => (['\n'], past 2)
  | b :: _ =>
    if b.toNat = 0x2028 ∨ b.toNat = 0x2029 then ([b], past 1)
    else if isBreak b then (['\n'], past 1)
    else ([], c)
  | [] => ([], c)

/-- Takes the characters satisfying `p` in front; none of them may be a line break. -/
def takeWhile (c : Cursor) (p : Char → Bool) : List Char × Cursor :=
  let taken := c.rest.takeWhile p
  (taken, c.advance taken.length)

def skipWhile (c : Cursor) (p : Char → Bool) : Cursor := (c.takeWhile p).2

/-- The next character is `x`. -/
def sees (c : Cursor) (x : Char) : Bool := c.rest.head? == some x

/-- At the beginning of a line stand three of the given character and then a gap. -/
def seesMarker (c : Cursor) (x : Char) : Bool :=
  c.column == 0 && c.rest.take 3 == [x, x, x] && atGap (c.rest.drop 3)

/-- A line that begins or ends a document. -/
def atMarker (c : Cursor) : Bool := c.seesMarker '-' || c.seesMarker '.'

/-- Skips a comment up to the end of its line. -/
def skipComment (c : Cursor) : Cursor :=
  if c.sees '#' then c.skipWhile fun x => !isBreak x else c

/-- Skips blanks and a comment, and then a line break; something else may not follow. -/
def finishLine? (c : Cursor) : Option Cursor :=
  let c := (c.skipWhile isSpace).skipComment
  if atLineEnd c.rest then some c.newline.2 else none

end Cursor

end Muster.Yaml
