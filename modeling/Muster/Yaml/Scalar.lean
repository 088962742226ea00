import Muster.Text.Number
import Muster.Yaml.Cursor

/-!
# Scalars

The text of plain, quoted and block scalars. Between the lines of a plain or quoted scalar one
line break reads as a space, more of them as one fewer; blanks around them vanish. Nothing here
tells faults apart: a scalar has a text, or the document is malformed.
-/
namespace Muster.Yaml

/-! ## Gaps within a scalar -/

/-- The blanks and line breaks between two pieces of a scalar. -/
structure Gap where
  /-- Blanks, if there was no line break. -/
  blanks : List Char := []
  /-- How the first line break reads. -/
  first : List Char := []
  /-- How the others read. -/
  more : List Char := []
  /-- There was a line break. -/
  broken : Bool := false

/-- How a gap reads. -/
def Gap.text (g : Gap) : List Char :=
  if g.broken then
    if g.first.head? = some '\n' then (if g.more = [] then [' '] else g.more)
    else g.first ++ g.more
  else g.blanks

/-- Takes a gap. With a least column, a tab before it on a later line is a fault. -/
def scanGap (least : Option Int) : (fuel : Nat) → Gap → Cursor → Option (Gap × Cursor)
  | 0, g, c => some (g, c)
  | fuel + 1, g, c =>
    match c.rest with
    | [] => some (g, c)
    | x :: _ =>
      if isSpace x then
        if g.broken && x == '\t' && least.any ((c.column : Int) < ·) then none
        else
          let g := if g.broken then g else { g with blanks := g.blanks ++ [x] }
          scanGap least fuel g (c.advance 1)
      else if isBreak x then
        let (text, c) := c.newline
        let g := if g.broken then { g with more := g.more ++ text }
          else { g with blanks := [], first := text, broken := true }
        scanGap least fuel g c
      else some (g, c)

/-! ## Plain scalars -/

/-- Characters that delimit flow collections. -/
def isFlowMark (c : Char) : Bool := c == ',' || c == '[' || c == ']' || c == '{' || c == '}'

/-- The part of a plain scalar up to a gap or an indicator. Within a flow collection a colon right
before a delimiter is a fault. -/
def plainPiece (flow : Bool) : List Char → Option (List Char)
  | [] => some []
  | c :: rest =>
    if isGap c then some []
    else if flow && c == ':' && rest.head?.any (fun x => isFlowMark x || x == '?') then none
    else if (c == ':' && atGap rest) || (flow && isFlowMark c) then some []
    else (plainPiece flow rest).map (c :: ·)

/-- The lines of a plain scalar after `text` and a gap. The flag says that it ended in a line
break. -/
def plainLines (flow : Bool) (least : Int) :
    (fuel : Nat) → List Char → Gap → Cursor → Option (List Char × Bool × Cursor)
  | 0, text, gap, c => some (text, gap.broken, c)
  | fuel + 1, text, gap, c =>
    if c.atMarker || c.sees '#' then some (text, gap.broken, c)
    else
      match plainPiece flow c.rest with
      | none => none
      | some [] => some (text, gap.broken, c)
      | some piece =>
        let text := text ++ gap.text ++ piece
        let c := c.advance piece.length
        match scanGap (some least) (c.rest.length + 1) {} c with
        | none => none
        | some (gap, c) =>
          if !flow && decide ((c.column : Int) < least) then some (text, gap.broken, c)
          else plainLines flow least fuel text gap c

/-- A plain scalar, inside a block that is indented by `indent`. -/
def scanPlain (flow : Bool) (indent : Int) (c : Cursor) : Option (List Char × Bool × Cursor) :=
  plainLines flow (indent + 1) (c.rest.length + 1) [] {} c

/-! ## Quoted scalars -/

/-- The character for a one-letter escape. -/
def escape? (c : Char) : Option Char :=
  match c with
  | '0' => some (Char.ofNat 0)
  | 'a' => some (Char.ofNat 7)
  | 'b' => some (Char.ofNat 8)
  | 't' | '\t' => some '\t'
  | 'n' => some '\n'
  | 'v' => some (Char.ofNat 0x0b)
  | 'f' => some (Char.ofNat 0x0c)
  | 'r' => some '\r'
  | 'e' => some (Char.ofNat 0x1b)
  | ' ' | '"' | '/' | '\\' => some c
  | 'N' => some (Char.ofNat 0x85)
  | '_' => some (Char.ofNat 0xa0)
  | 'L' => some (Char.ofNat 0x2028)
  | 'P' => some (Char.ofNat 0x2029)
  | _ => none

/-- How many hexadecimal digits follow an escape that gives a code point. -/
def codeLength? (c : Char) : Option Nat :=
  match c with
  | 'x' => some 2
  | 'u' => some 4
  | 'U' => some 8
  | _ => none

/-- The character of a code point written with `n` digits. -/
def codePoint? (n : Nat) (cs : List Char) : Option Char := do
  let ds := cs.take n
  if ds.length < n then none
  let value ← Text.natural? 16 ds
  if (0xd800 ≤ value ∧ value ≤ 0xdfff) ∨ 0x10ffff < value then none
  pure (Char.ofNat value)

/-- How a piece of a quoted scalar ends. -/
inductive PieceEnd where
  | quote
  | gap
  /-- A backslash at the end of the line, which joins the next line. -/
  | joined

/-- A piece of a quoted scalar up to a gap or the closing quote. -/
def quotedPiece (quote : Char) :
    (fuel : Nat) → List Char → Cursor → Option (List Char × PieceEnd × Cursor)
  | 0, _, _ => none
  | fuel + 1, text, c =>
    match c.rest with
    | [] => some (text, .gap, c)
    | x :: rest =>
      if isGap x then some (text, .gap, c)
      else if x = quote then
        if quote = '\x27' ∧ rest.head? = some quote then
          quotedPiece quote fuel (text ++ [x]) (c.advance 2)
        else some (text, .quote, c)
      else if x = '\\' ∧ quote = '"' then
        match rest with
        | [] => none
        | e :: more =>
          if isBreak e then some (text, .joined, (c.advance 1).newline.2)
          else
            match codeLength? e, escape? e with
            | some n, _ =>
              match codePoint? n more with
              | some y => quotedPiece quote fuel (text ++ [y]) (c.advance (2 + n))
              | none => none
            | none, some y => quotedPiece quote fuel (text ++ [y]) (c.advance 2)
            | none, none => none
      else quotedPiece quote fuel (text ++ [x]) (c.advance 1)

/-- The pieces of a quoted scalar after `text`. -/
def quotedLines (quote : Char) :
    (fuel : Nat) → List Char → Cursor → Option (List Char × Cursor)
  | 0, _, _ => none
  | fuel + 1, text, c =>
    if c.atMarker || c.rest.isEmpty then none
    else
      match quotedPiece quote (c.rest.length + 1) text c with
      | none => none
      | some (text, ending, c) =>
        if c.sees quote then some (text, c.advance 1)
        else
          let broken := match ending with
            | .joined => true
            | _ => false
          match scanGap none (c.rest.length + 1) { broken } c with
          | none => none
          | some (gap, c) => quotedLines quote fuel (text ++ gap.text) c

/-- A quoted scalar, with the cursor on its opening quote. -/
def scanQuoted (quote : Char) (c : Cursor) : Option (List Char × Cursor) :=
  quotedLines quote (c.rest.length + 1) [] (c.advance 1)

/-! ## Block scalars -/

/-- What becomes of the line breaks at the end of a block scalar. -/
inductive Chomping where
  | strip
  | clip
  | keep
deriving DecidableEq

/-- A mark for the end of a block scalar. -/
def chomping? (c : Cursor) : Option Chomping :=
  if c.sees '+' then some .keep else if c.sees '-' then some .strip else none

/-- An indentation given as a digit other than zero. -/
def increment? (c : Cursor) : Option (Option Nat) :=
  match c.rest with
  | d :: _ =>
    if d = '0' then none
    else some (if d.isDigit then Text.digit? 10 d else none)
  | [] => some none

/-- The marks after the indicator of a block scalar, in either order. -/
def blockHeader? (c : Cursor) : Option (Chomping × Option Nat × Cursor) := do
  match chomping? c with
  | some k =>
    let c := c.advance 1
    match ← increment? c with
    | some n => pure (k, some n, c.advance 1)
    | none => pure (k, none, c)
  | none =>
    match ← increment? c with
    | some n =>
      let c := c.advance 1
      match chomping? c with
      | some k => pure (k, some n, c.advance 1)
      | none => pure (.clip, some n, c)
    | none => pure (.clip, none, c)

/-- Blank lines in front of a line of a block scalar: how they read, and the greatest indentation
seen. Before the indentation is known all blanks count as such. -/
def blockBreaks (indent : Option Nat) :
    (fuel : Nat) → List Char → Nat → Cursor → Option (List Char × Nat × Cursor)
  | 0, text, deepest, c => some (text, deepest, c)
  | fuel + 1, text, deepest, c =>
    let spaces := (c.rest.takeWhile (· == ' ')).length
    let c := c.advance (match indent with
      | none => spaces
      | some n => min spaces (n - c.column))
    let deepest := max deepest c.column
    let inside := match indent with
      | none => true
      | some n => decide (c.column < n)
    if inside && c.sees '\t' then none
    else
      match c.rest with
      | x :: _ =>
        if isBreak x then
          let (b, c) := c.newline
          blockBreaks indent fuel (text ++ b) deepest c
        else some (text, deepest, c)
      | [] => some (text, deepest, c)

/-- What has been read of a block scalar: its text, the last line break, the blank lines after it,
and whether the last line began with a blank. -/
structure BlockText where
  text : List Char := []
  last : List Char := []
  blank : List Char := []
  spaced : Bool := false

/-- Adds one line. In a folded scalar a line break between two lines that begin with no blank
reads as a space, or as nothing if blank lines follow it. -/
def BlockText.addLine (b : BlockText) (literal : Bool) (line last : List Char) : BlockText :=
  let spaced := line.head?.any isSpace
  let between :=
    if !literal && b.last.head? == some '\n' && !b.spaced && !spaced then
      if b.blank = [] then [' '] else []
    else b.last
  { text := b.text ++ between ++ b.blank ++ line, last, blank := [], spaced }

/-- The lines of a block scalar. -/
def blockLines (literal : Bool) (indent : Nat) :
    (fuel : Nat) → BlockText → Cursor → Option (BlockText × Cursor)
  | 0, b, c => some (b, c)
  | fuel + 1, b, c =>
    if c.column = indent ∧ c.rest ≠ [] then
      let (line, c) := c.takeWhile fun x => !isBreak x
      let (last, c) := c.newline
      match blockBreaks (some indent) (c.rest.length + 1) [] 0 c with
      | none => none
      | some (blank, _, c) =>
        blockLines literal indent fuel { b.addLine literal line last with blank } c
    else some (b, c)

/-- A block scalar, with the cursor on its indicator, inside a block indented by `indent`. -/
def scanBlock (literal : Bool) (indent : Int) (c : Cursor) : Option (List Char × Cursor) := do
  let (chomping, increment, c) ← blockHeader? (c.advance 1)
  let c ← c.finishLine?
  let given := increment.map fun n => if 0 ≤ indent then indent.toNat + n else n
  let (blank, deepest, c) ← blockBreaks given (c.rest.length + 1) [] 0 c
  let column := given.getD (max (max deepest (indent + 1).toNat) 1)
  let (b, c) ← blockLines literal column (c.rest.length + 1) { blank } c
  let last := if chomping = .strip then [] else b.last
  let blank := if chomping = .keep then b.blank else []
  pure (b.text ++ last ++ blank, c)

end Muster.Yaml
