import Muster.Yaml.Token

/-!
# Reading tokens

The tokens of a text in order. What may turn out to be the key of a mapping leaves a place before
it; when the colon comes, the place is filled with a key token, and before it with the beginning
of a mapping if the indentation asks for one. A possible key is given up at the end of its line
or 1024 characters on; one at the indentation of its block may not be given up.
-/
namespace Muster.Yaml

/-- A place for a key in front of a token. -/
structure PossibleKey where
  place : Nat
  required : Bool
  line : Nat
  index : Nat
  column : Nat

/-- A token, or a place that may be filled later. -/
inductive Entry where
  | token (t : Token)
  | place (id : Nat)

structure Lexer where
  cursor : Cursor
  /-- The entries so far, newest first. -/
  entries : List Entry := []
  /-- The places that were filled, with what fills them. -/
  filled : List (Nat × List Token) := []
  /-- How many places there are. -/
  places : Nat := 0
  /-- The possible key of each flow collection that is open and of the block, innermost first. -/
  keys : List (Option PossibleKey) := [none]
  /-- A key may begin here. -/
  keyAllowed : Bool := true
  indent : Int := -1
  /-- The indentations around the present one. -/
  outer : List Int := []

namespace Lexer

def inFlow (l : Lexer) : Bool := 1 < l.keys.length

def emit (l : Lexer) (t : Token) : Lexer := { l with entries := .token t :: l.entries }

/-- Emits a token of `n` characters. -/
def emitOver (l : Lexer) (n : Nat) (t : Token) : Lexer :=
  { l.emit t with cursor := l.cursor.advance n }

/-- The possible key of the innermost collection. -/
def key? (l : Lexer) : Option PossibleKey := l.keys.head?.join

def setKey (l : Lexer) (k : Option PossibleKey) : Lexer := { l with keys := k :: l.keys.tail }

/-- Gives the innermost possible key up. -/
def dropKey (l : Lexer) : Option Lexer :=
  match l.key? with
  | some k => if k.required then none else some (l.setKey none)
  | none => some l

/-- Leaves a place for a key here, if one may begin. -/
def saveKey (l : Lexer) : Option Lexer :=
  if l.keyAllowed then do
    let l ← l.dropKey
    let c := l.cursor
    let key : PossibleKey := {
      place := l.places
      required := !l.inFlow && l.indent == (c.column : Int)
      line := c.line
      index := c.index
      column := c.column }
    pure { l.setKey (some key) with
      entries := .place l.places :: l.entries
      places := l.places + 1 }
  else some l

/-- Gives up the possible keys that are too far back. -/
def dropStale (l : Lexer) : Option Lexer := do
  let fresh (k? : Option PossibleKey) : Option (Option PossibleKey) :=
    match k? with
    | some k =>
      if k.line < l.cursor.line ∨ k.index + 1024 < l.cursor.index then
        if k.required then none else some none
      else some (some k)
    | none => some none
  let keys ← l.keys.mapM fresh
  pure { l with keys }

/-- Whether a block at this column begins here. -/
def opensBlock (l : Lexer) (column : Nat) : Bool := !l.inFlow && decide (l.indent < column)

/-- Begins a block. -/
def indentTo (l : Lexer) (column : Nat) : Lexer :=
  { l with indent := column, outer := l.indent :: l.outer }

/-- Begins a block at the cursor with its first token. -/
def openBlock (l : Lexer) (t : Token) : Lexer :=
  let column := l.cursor.column
  if l.opensBlock column then (l.indentTo column).emit t else l

/-- Ends the blocks that are indented deeper than a column. -/
def closeBlocksWithin (column : Int) : (fuel : Nat) → Lexer → Lexer
  | 0, l => l
  | fuel + 1, l =>
    if column < l.indent then
      match l.outer with
      | i :: outer =>
        closeBlocksWithin column fuel ({ l with indent := i, outer }.emit .blockEnd)
      | [] => l
    else l

def closeBlocks (l : Lexer) (column : Int) : Lexer :=
  if l.inFlow then l else closeBlocksWithin column l.outer.length l

/-- Skips blanks, comments and line breaks. A tab may not stand where a key may begin. -/
def skipGapsWithin : (fuel : Nat) → Lexer → Lexer
  | 0, l => l
  | fuel + 1, l =>
    let c := l.cursor
    let c := if c.column = 0 ∧ c.sees '\ufeff' then c.advance 1 else c
    let tabs := l.inFlow || !l.keyAllowed
    let c := (c.skipWhile fun x => x == ' ' || (tabs && x == '\t')).skipComment
    match c.rest with
    | x :: _ =>
      if isBreak x then
        skipGapsWithin fuel
          { l with cursor := c.newline.2, keyAllowed := l.keyAllowed || !l.inFlow }
      else { l with cursor := c }
    | [] => { l with cursor := c }

def skipGaps (l : Lexer) : Lexer := skipGapsWithin (l.cursor.rest.length + 1) l

/-! ## Indicators -/

/-- A directive or a document marker ends all blocks. -/
def atLineStart (l : Lexer) : Option Lexer := do
  let l ← (l.closeBlocks (-1)).dropKey
  pure { l with keyAllowed := false }

def openFlow (l : Lexer) (t : Token) : Option Lexer := do
  let l ← l.saveKey
  pure { l.emitOver 1 t with keys := none :: l.keys, keyAllowed := true }

def closeFlow (l : Lexer) (t : Token) : Option Lexer := do
  let l ← l.dropKey
  pure { l.emitOver 1 t with
    keys := if l.inFlow then l.keys.tail else l.keys
    keyAllowed := false }

def flowEntry (l : Lexer) : Option Lexer := do
  let l ← l.dropKey
  pure { l.emitOver 1 .flowEntry with keyAllowed := true }

def blockEntry (l : Lexer) : Option Lexer := do
  if !l.inFlow && !l.keyAllowed then none
  let l ← (l.openBlock .blockSequenceStart).dropKey
  pure { l.emitOver 1 .blockEntry with keyAllowed := true }

/-- A question mark before a key. -/
def explicitKey (l : Lexer) : Option Lexer := do
  if !l.inFlow && !l.keyAllowed then none
  let l ← (l.openBlock .blockMappingStart).dropKey
  pure { l.emitOver 1 .key with keyAllowed := !l.inFlow }

/-- A colon: the possible key before it, if there is one, becomes a key. -/
def valueMark (l : Lexer) : Option Lexer :=
  match l.key? with
  | some k =>
    let (l, tokens) :=
      if l.opensBlock k.column then (l.indentTo k.column, [Token.blockMappingStart, .key])
      else (l, [.key])
    let l := l.setKey none
    some { l.emitOver 1 .value with
      filled := (k.place, tokens) :: l.filled
      keyAllowed := false }
  | none => do
    if !l.inFlow && !l.keyAllowed then none
    let l := l.openBlock .blockMappingStart
    pure { l.emitOver 1 .value with keyAllowed := !l.inFlow }

/-- A token at which a key may begin and after which none may. -/
def simple (l : Lexer) (scan : Cursor → Option (Token × Cursor)) : Option Lexer := do
  let l ← l.saveKey
  let (t, cursor) ← scan l.cursor
  pure { l.emit t with cursor, keyAllowed := false }

def blockScalar (l : Lexer) (literal : Bool) : Option Lexer := do
  let l ← l.dropKey
  let (text, cursor) ← scanBlock literal l.indent l.cursor
  pure { l.emit (.scalar (String.ofList text) false) with cursor, keyAllowed := true }

def quotedScalar (l : Lexer) (quote : Char) : Option Lexer :=
  l.simple fun c =>
    (scanQuoted quote c).map fun (text, c) => (.scalar (String.ofList text) false, c)

/-- A plain scalar. After one that ended in a line break a key may begin. -/
def plainScalar (l : Lexer) : Option Lexer := do
  let l ← l.saveKey
  let (text, broken, cursor) ← scanPlain l.inFlow l.indent l.cursor
  pure { l.emit (.scalar (String.ofList text) true) with cursor, keyAllowed := broken }

/-- Characters that begin no plain scalar. -/
def isIndicator (c : Char) : Bool := "-?:,[]\x7b\x7d#&*!|>\x27\"%@\x60".toList.contains c

/-- A plain scalar may begin with these two characters. -/
def beginsPlain (flow : Bool) (c : Char) (rest : List Char) : Bool :=
  (!isGap c && !isIndicator c) || (c == '-' && !rest.head?.any isSpace)
    || (!flow && (c == '?' || c == ':') && !atGap rest)

/-! ## Steps -/

/-- Reads the next token, or nothing more after the end of the text. -/
def next (l : Lexer) : Option (Lexer × Bool) := do
  let l ← l.skipGaps.dropStale
  let l := l.closeBlocks l.cursor.column
  let go (r : Option Lexer) : Option (Lexer × Bool) := r.map (·, false)
  match l.cursor.rest with
  | [] => do
    let l ← l.atLineStart
    pure (l.emit .streamEnd, true)
  | c :: rest =>
    if l.cursor.column = 0 ∧ c = '%' then
      go do
        let l ← l.atLineStart
        let (t, cursor) ← scanDirective l.cursor
        pure { l.emit t with cursor }
    else if l.cursor.seesMarker '-' then go (l.atLineStart.map (·.emitOver 3 .documentStart))
    else if l.cursor.seesMarker '.' then go (l.atLineStart.map (·.emitOver 3 .documentEnd))
    else if c = '[' then go (l.openFlow .flowSequenceStart)
    else if c = '{' then go (l.openFlow .flowMappingStart)
    else if c = ']' then go (l.closeFlow .flowSequenceEnd)
    else if c = '}' then go (l.closeFlow .flowMappingEnd)
    else if c = ',' then go l.flowEntry
    else if c = '-' ∧ atGap rest then go l.blockEntry
    else if c = '?' ∧ (l.inFlow ∨ atGap rest) then go l.explicitKey
    else if c = ':' ∧ (l.inFlow ∨ atGap rest) then go l.valueMark
    else if c = '*' then go (l.simple fun c => (scanName c).map fun (n, c) => (.alias n, c))
    else if c = '&' then go (l.simple fun c => (scanName c).map fun (n, c) => (.anchor n, c))
    else if c = '!' then go (l.simple (scanTag l.inFlow))
    else if c = '|' ∧ l.inFlow = false then go (l.blockScalar true)
    else if c = '>' ∧ l.inFlow = false then go (l.blockScalar false)
    else if c = '\x27' ∨ c = '"' then go (l.quotedScalar c)
    else if beginsPlain l.inFlow c rest then go l.plainScalar
    else none

def runWithin : (fuel : Nat) → Lexer → Option Lexer
  | 0, _ => none
  | fuel + 1, l =>
    match l.next with
    | none => none
    | some (l, true) => some l
    | some (l, false) => runWithin fuel l

/-- The tokens in order, with the places filled or left out. -/
def tokens (l : Lexer) : List Token :=
  l.entries.reverse.flatMap fun e =>
    match e with
    | .token t => [t]
    | .place id => (l.filled.lookup id).getD []

end Lexer

/-- The tokens of a text; every token but the last takes at least one character. -/
def tokens? (text : String) : Option (List Token) :=
  let cs := text.toList
  if cs.all isAllowed then
    (Lexer.runWithin (cs.length + 2) { cursor := { rest := cs } }).map Lexer.tokens
  else none

end Muster.Yaml
