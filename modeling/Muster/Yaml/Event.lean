import Muster.Yaml.Lexer

/-!
# Events

The structure of a document as a list: scalars, aliases, and the beginnings and ends of sequences
and mappings. A text holds at most one document; an empty text has no event at all.
-/
namespace Muster.Yaml

/-- What may stand before a node. A tag is written out in full. -/
structure Properties where
  anchor : Option String := none
  tag : Option String := none
deriving DecidableEq, Repr

inductive Event where
  | alias (name : String)
  | scalar (properties : Properties) (text : String) (plain : Bool)
  | sequenceStart (properties : Properties)
  | sequenceEnd
  | mappingStart (properties : Properties)
  | mappingEnd
deriving DecidableEq, Repr

/-- An empty node. -/
def Event.empty (p : Properties := {}) : Event := .scalar p "" true

/-- The beginnings that tag handles stand for. -/
abbrev Handles := List (String × String)

/-- Those that need no directive. -/
def Handles.usual : Handles := [("!", "!"), ("!!", "tag:yaml.org,2002:")]

/-- A tag written out in full. -/
def Handles.resolve (hs : Handles) (handle suffix : String) : Option String :=
  if handle = "" then some suffix else (hs.lookup handle).map (· ++ suffix)

/-- The properties in front, an anchor and a tag in either order. -/
def properties (hs : Handles) : List Token → Option (Properties × List Token)
  | .anchor a :: .tag h s :: ts => (hs.resolve h s).map fun t => ({ anchor := a, tag := t }, ts)
  | .tag h s :: .anchor a :: ts => (hs.resolve h s).map fun t => ({ anchor := a, tag := t }, ts)
  | .anchor a :: ts => some ({ anchor := a }, ts)
  | .tag h s :: ts => (hs.resolve h s).map fun t => ({ tag := t }, ts)
  | ts => some ({}, ts)

/-- What is to be read. -/
inductive Goal where
  /-- A node; `block` allows block collections, `bare` a sequence that is not indented. -/
  | node (block bare : Bool)
  /-- The entries of a block sequence. -/
  | blockEntries
  | bareEntries
  /-- The pairs of a block mapping, and what follows a key. -/
  | blockPairs
  | blockValue
  | flowEntries (first : Bool)
  /-- A single pair among the entries of a flow sequence. -/
  | flowPair
  | flowPairValue
  | flowPairs (first : Bool)
  | flowValue

/-- Events so far, newest first, and the tokens left. -/
abbrev Reading := List Event × List Token

/-- Reads what a goal asks for. -/
def parse (hs : Handles) : (fuel : Nat) → Goal → Reading → Option Reading
  | 0, _, _ => none
  | fuel + 1, goal, (out, ts) =>
    match goal with
    | .node block bare =>
      match ts with
      | .alias n :: ts => some (.alias n :: out, ts)
      | ts => do
        let (p, ts) ← properties hs ts
        match ts with
        | .scalar text plain :: ts =>
          -- The tag "!" makes a scalar one without a tag that reads as if it were plain.
          let p' := if p.tag = some "!" then { p with tag := none } else p
          pure (.scalar p' text plain :: out, ts)
        | .flowSequenceStart :: ts =>
          parse hs fuel (.flowEntries true) (.sequenceStart p :: out, ts)
        | .flowMappingStart :: ts =>
          parse hs fuel (.flowPairs true) (.mappingStart p :: out, ts)
        | .blockEntry :: _ =>
          if bare then parse hs fuel .bareEntries (.sequenceStart p :: out, ts)
          else if p = {} then none
          else pure (.empty p :: out, ts)
        | .blockSequenceStart :: rest =>
          if block then parse hs fuel .blockEntries (.sequenceStart p :: out, rest)
          else if p = {} then none
          else pure (.empty p :: out, ts)
        | .blockMappingStart :: rest =>
          if block then parse hs fuel .blockPairs (.mappingStart p :: out, rest)
          else if p = {} then none
          else pure (.empty p :: out, ts)
        | ts => if p = {} then none else pure (.empty p :: out, ts)
    | .blockEntries =>
      match ts with
      | .blockEnd :: ts => some (.sequenceEnd :: out, ts)
      | .blockEntry :: ts =>
        match ts with
        | .blockEntry :: _ | .blockEnd :: _ => parse hs fuel .blockEntries (.empty :: out, ts)
        | ts => do
          let r ← parse hs fuel (.node true false) (out, ts)
          parse hs fuel .blockEntries r
      | _ => none
    | .bareEntries =>
      match ts with
      | .blockEntry :: ts =>
        match ts with
        | .blockEntry :: _ | .key :: _ | .value :: _ | .blockEnd :: _ =>
          parse hs fuel .bareEntries (.empty :: out, ts)
        | ts => do
          let r ← parse hs fuel (.node true false) (out, ts)
          parse hs fuel .bareEntries r
      | ts => some (.sequenceEnd :: out, ts)
    | .blockPairs =>
      match ts with
      | .blockEnd :: ts => some (.mappingEnd :: out, ts)
      | .key :: ts =>
        match ts with
        | .key :: _ | .value :: _ | .blockEnd :: _ =>
          parse hs fuel .blockValue (.empty :: out, ts)
        | ts => do
          let r ← parse hs fuel (.node true true) (out, ts)
          parse hs fuel .blockValue r
      | _ => none
    | .blockValue =>
      match ts with
      | .value :: ts =>
        match ts with
        | .key :: _ | .value :: _ | .blockEnd :: _ =>
          parse hs fuel .blockPairs (.empty :: out, ts)
        | ts => do
          let r ← parse hs fuel (.node true true) (out, ts)
          parse hs fuel .blockPairs r
      | ts => parse hs fuel .blockPairs (.empty :: out, ts)
    | .flowEntries first =>
      match ts with
      | .flowSequenceEnd :: ts => some (.sequenceEnd :: out, ts)
      | ts => do
        let ts ← match first, ts with
          | true, ts => some ts
          | false, .flowEntry :: ts => some ts
          | false, _ => none
        match ts with
        | .flowSequenceEnd :: ts => pure (.sequenceEnd :: out, ts)
        | .key :: ts => do
          let r ← parse hs fuel .flowPair (.mappingStart {} :: out, ts)
          parse hs fuel (.flowEntries false) r
        | ts => do
          let r ← parse hs fuel (.node false false) (out, ts)
          parse hs fuel (.flowEntries false) r
    | .flowPair =>
      match ts with
      | .value :: ts | .flowEntry :: ts | .flowSequenceEnd :: ts =>
        parse hs fuel .flowPairValue (.empty :: out, ts)
      | ts => do
        let r ← parse hs fuel (.node false false) (out, ts)
        parse hs fuel .flowPairValue r
    | .flowPairValue =>
      match ts with
      | .value :: ts =>
        match ts with
        | .flowEntry :: _ | .flowSequenceEnd :: _ => some (.mappingEnd :: .empty :: out, ts)
        | ts => do
          let (out, ts) ← parse hs fuel (.node false false) (out, ts)
          pure (.mappingEnd :: out, ts)
      | ts => some (.mappingEnd :: .empty :: out, ts)
    | .flowPairs first =>
      match ts with
      | .flowMappingEnd :: ts => some (.mappingEnd :: out, ts)
      | ts => do
        let ts ← match first, ts with
          | true, ts => some ts
          | false, .flowEntry :: ts => some ts
          | false, _ => none
        match ts with
        | .flowMappingEnd :: ts => pure (.mappingEnd :: out, ts)
        | .key :: ts =>
          match ts with
          | .value :: _ | .flowEntry :: _ | .flowMappingEnd :: _ =>
            parse hs fuel .flowValue (.empty :: out, ts)
          | ts => do
            let r ← parse hs fuel (.node false false) (out, ts)
            parse hs fuel .flowValue r
        | ts => do
          let (out, ts) ← parse hs fuel (.node false false) (out, ts)
          parse hs fuel (.flowPairs false) (.empty :: out, ts)
    | .flowValue =>
      match ts with
      | .value :: ts =>
        match ts with
        | .flowEntry :: _ | .flowMappingEnd :: _ =>
          parse hs fuel (.flowPairs false) (.empty :: out, ts)
        | ts => do
          let r ← parse hs fuel (.node false false) (out, ts)
          parse hs fuel (.flowPairs false) r
      | ts => parse hs fuel (.flowPairs false) (.empty :: out, ts)

/-- The directives in front of a document: at most one version, which has to be 1.1 or 1.2, and
at most one meaning for each handle. -/
def directives : (versioned : Bool) → Handles → List Token → Option (Handles × List Token)
  | versioned, hs, .version major minor :: ts =>
    if versioned ∨ major ≠ 1 ∨ (minor ≠ 1 ∧ minor ≠ 2) then none else directives true hs ts
  | versioned, hs, .tagDirective h b :: ts =>
    if (hs.lookup h).isSome then none else directives versioned (hs ++ [(h, b)]) ts
  | _, hs, ts => some (hs ++ Handles.usual, ts)

/-- The text ends here, after any number of document ends. -/
def endsHere (ts : List Token) : Bool :=
  match ts.dropWhile (· == .documentEnd) with
  | [.streamEnd] => true
  | _ => false

/-- The events of the only document among the tokens. -/
def Event.ofTokens? (ts : List Token) : Option (List Event) :=
  let fuel := 4 * ts.length + 4
  let finish (r : Option Reading) : Option (List Event) := do
    let (out, ts) ← r
    if endsHere ts then pure out.reverse else none
  match ts with
  | [.streamEnd] => some []
  | .version _ _ :: _ | .tagDirective _ _ :: _ | .documentStart :: _ => do
    let (hs, ts) ← directives false [] ts
    match ts with
    | .documentStart :: ts =>
      match ts with
      | .version _ _ :: _ | .tagDirective _ _ :: _ | .documentStart :: _ | .documentEnd :: _
      | .streamEnd :: _ => finish (some ([.empty], ts))
      | ts => finish (parse hs fuel (.node true false) ([], ts))
    | _ => none
  | ts => finish (parse Handles.usual fuel (.node true false) ([], ts))

end Muster.Yaml
