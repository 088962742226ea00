import Muster.Text.Utf8
import Muster.Yaml.Scalar

/-!
# Tokens

The tokens of a YAML text, and the reading of those that are names: anchors, aliases, tags and
directives.
-/
namespace Muster.Yaml

inductive Token where
  | version (major minor : Nat)
  | tagDirective (handle beginning : String)
  | documentStart
  | documentEnd
  | streamEnd
  | blockSequenceStart
  | blockMappingStart
  | blockEnd
  | flowSequenceStart
  | flowSequenceEnd
  | flowMappingStart
  | flowMappingEnd
  | blockEntry
  | flowEntry
  | key
  | value
  | anchor (name : String)
  | alias (name : String)
  | tag (handle suffix : String)
  | scalar (text : String) (plain : Bool)
deriving DecidableEq, Repr

/-! ## Anchors -/

/-- The name after an anchor or alias indicator; a gap or one of a few marks has to follow. -/
def scanName (c : Cursor) : Option (String × Cursor) :=
  let (name, c) := (c.advance 1).takeWhile isWord
  let closed := match c.rest with
    | [] => true
    | x :: _ => isGap x || "?:,]\x7d%@\x60".toList.contains x
  if name = [] ∨ closed = false then none else some (String.ofList name, c)

/-! ## Tags -/

/-- Characters of a tag besides letters, digits and a few marks: inside angle brackets the
delimiters of flow collections are allowed too. -/
def isTagChar (verbatim : Bool) (c : Char) : Bool :=
  isWord c || ";/?:@&=+$.%!~*\x27()".toList.contains c
    || (verbatim && (c == ',' || c == '[' || c == ']'))

/-- The text of a tag, percent escapes decoded; they have to be well-formed UTF-8. -/
def unescapeTag : List Char → Option (List UInt8)
  | [] => some []
  | '%' :: hi :: lo :: rest =>
    match Text.digit? 16 hi, Text.digit? 16 lo with
    | some h, some l => (unescapeTag rest).map (UInt8.ofNat (16 * h + l) :: ·)
    | _, _ => none
  | c :: rest =>
    if c = '%' then none else (unescapeTag rest).map (String.utf8EncodeChar c ++ ·)

/-- Takes the characters of a tag. -/
def scanTagText (verbatim : Bool) (c : Cursor) : Option (String × Cursor) :=
  let (text, c) := c.takeWhile (isTagChar verbatim)
  match (unescapeTag text).map Text.Utf8.decode with
  | some (.ok s) => some (s, c)
  | _ => none

/-- Takes a handle: an exclamation mark, a word, and perhaps another exclamation mark. -/
def scanHandle (c : Cursor) : List Char × Cursor :=
  let (word, c) := (c.advance 1).takeWhile isWord
  if c.sees '!' then ('!' :: word ++ ['!'], c.advance 1) else ('!' :: word, c)

/-- A tag, with the cursor on its exclamation mark. -/
def scanTag (flow : Bool) (c : Cursor) : Option (Token × Cursor) := do
  let (t, c) ←
    if c.rest.take 2 = ['!', '<'] then do
      let (uri, c) ← scanTagText true (c.advance 2)
      if uri = "" ∨ c.sees '>' = false then none
      pure (Token.tag "" uri, c.advance 1)
    else do
      let (handle, after) := scanHandle c
      if 1 < handle.length ∧ handle.getLast? = some '!' then do
        let (suffix, c) ← scanTagText false after
        if suffix = "" then none
        pure (Token.tag (String.ofList handle) suffix, c)
      else do
        let (suffix, c) ← scanTagText false (c.advance 1)
        pure (if suffix = "" then Token.tag "" "!" else Token.tag "!" suffix, c)
  if (flow && c.sees ',') || atGap c.rest then pure (t, c) else none

/-! ## Directives -/

/-- A number of at most nine digits. -/
def scanVersionNumber (c : Cursor) : Option (Nat × Cursor) :=
  let (ds, c) := c.takeWhile (·.isDigit)
  if ds = [] ∨ 9 < ds.length then none else some (Text.digitsValue 10 ds, c)

/-- A directive, with the cursor on its percent sign. -/
def scanDirective (c : Cursor) : Option (Token × Cursor) := do
  let (name, c) := (c.advance 1).takeWhile isWord
  if name = [] ∨ atGap c.rest = false then none
  let c := c.skipWhile isSpace
  let (t, c) ←
    if name = "YAML".toList then do
      let (major, c) ← scanVersionNumber c
      if c.sees '.' = false then none
      let (minor, c) ← scanVersionNumber (c.advance 1)
      pure (Token.version major minor, c)
    else if name = "TAG".toList then do
      if c.sees '!' = false then none
      let (handle, c) := scanHandle c
      if 1 < handle.length ∧ handle.getLast? ≠ some '!' then none
      if c.rest.head?.all (fun x => !isSpace x) then none
      let c := c.skipWhile isSpace
      let (beginning, c) ← scanTagText true c
      if beginning = "" ∨ atGap c.rest = false then none
      pure (Token.tagDirective (String.ofList handle) beginning, c)
    else none
  let c ← c.finishLine?
  pure (t, c)

end Muster.Yaml
