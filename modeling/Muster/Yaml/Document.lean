import Muster.Yaml.Value

/-!
# Documents

The value of a whole text. An alias stands for the node that its anchor named last; anchors are
numbered by how many names were known before, so that one that names a node again shares its
number with the next new name. Collections nest at most 128 deep, aliases are followed at most
a hundred times the number of events, and no key stands twice in a mapping.

`Value.ofText?` is the parsing of a text in `from_yaml_str` of the program.
-/
namespace Muster.Yaml

/-! ## Anchors -/

/-- An event with its alias resolved to the number of an anchor. -/
inductive Node where
  | alias (number : Nat)
  | scalar (tag : Option String) (text : String) (plain : Bool)
  | sequenceStart (tag : Option String)
  | sequenceEnd
  | mappingStart (tag : Option String)
  | mappingEnd
deriving Repr

/-- The names known so far with their numbers, the numbers with the places they stand for, and the
nodes read, newest first. -/
structure Anchors where
  names : List (String × Nat) := []
  places : List (Nat × Nat) := []
  nodes : List Node := []

namespace Anchors

/-- Sets the number of a name, a new name at the end. -/
def rename (name : String) (number : Nat) : List (String × Nat) → List (String × Nat)
  | [] => [(name, number)]
  | p :: rest => if p.1 = name then (name, number) :: rest else p :: rename name number rest

/-- The next node, perhaps with an anchor. -/
def add (a : Anchors) (anchor : Option String) (n : Node) : Anchors :=
  match anchor with
  | none => { a with nodes := n :: a.nodes }
  | some name =>
    let number := a.names.length
    { names := rename name number a.names
      places := (number, a.nodes.length) :: a.places
      nodes := n :: a.nodes }

def step (a : Anchors) : Event → Option Anchors
  | .alias name => (a.names.lookup name).map fun number => a.add none (.alias number)
  | .scalar p text plain => some (a.add p.anchor (.scalar p.tag text plain))
  | .sequenceStart p => some (a.add p.anchor (.sequenceStart p.tag))
  | .sequenceEnd => some (a.add none .sequenceEnd)
  | .mappingStart p => some (a.add p.anchor (.mappingStart p.tag))
  | .mappingEnd => some (a.add none .mappingEnd)

end Anchors

/-! ## Reading values -/

/-- A tag of the document's own, without its exclamation mark. -/
def localTag? (tag : Option String) : Option String :=
  tag.bind fun t =>
    match t.toList with
    | '!' :: [] => some "!"
    | '!' :: rest => some (String.ofList rest)
    | _ => none

/-- The nodes of a document and where its anchors point. -/
structure Tape where
  nodes : Array Node
  places : List (Nat × Nat)

/-- A value, the place after it, and how many aliases were followed so far. -/
abbrev ReadValue := Value × Nat × Nat

namespace Tape

mutual

/-- The value of the node at a place, with `depth` collections left to open. The flag says that
its own tag was taken already. -/
def value (c : Tape) : (fuel depth : Nat) → (tagTaken : Bool) → (place jumps : Nat) →
    Option ReadValue
  | 0, _, _, _, _ => none
  | fuel + 1, depth, tagTaken, place, jumps => do
    let own (tag : Option String) : Option String := if tagTaken then none else localTag? tag
    let wrapped (tag : String) : Option ReadValue := do
      let (v, place, jumps) ← c.value fuel depth true place jumps
      pure (.tagged tag v, place, jumps)
    match ← c.nodes[place]? with
    | .alias number =>
      let jumps := jumps + 1
      if c.nodes.size * 100 < jumps then none
      else do
        let target ← c.places.lookup number
        let (v, _, jumps) ← c.value fuel depth false target jumps
        pure (v, place + 1, jumps)
    | .scalar tag text plain =>
      match own tag with
      | some t => wrapped t
      | none => do
        let v ← scalarValue? (if tagTaken then none else tag) text plain
        pure (v, place + 1, jumps)
    | .sequenceStart tag =>
      match own tag with
      | some t => wrapped t
      | none =>
        match depth with
        | 0 => none
        | depth + 1 => do
          let (vs, place, jumps) ← c.items fuel depth (place + 1) jumps
          pure (.sequence vs, place, jumps)
    | .mappingStart tag =>
      match own tag with
      | some t => wrapped t
      | none =>
        match depth with
        | 0 => none
        | depth + 1 => do
          let (ps, place, jumps) ← c.pairs fuel depth [] (place + 1) jumps
          pure (.mapping ps, place, jumps)
    | .sequenceEnd | .mappingEnd => none

/-- The items of a sequence from a place on. -/
def items (c : Tape) : (fuel depth place jumps : Nat) → Option (List Value × Nat × Nat)
  | 0, _, _, _ => none
  | fuel + 1, depth, place, jumps =>
    match c.nodes[place]? with
    | some .sequenceEnd => some ([], place + 1, jumps)
    | _ => do
      let (v, place, jumps) ← c.value fuel depth false place jumps
      let (vs, place, jumps) ← c.items fuel depth place jumps
      pure (v :: vs, place, jumps)

/-- The pairs of a mapping from a place on; `seen` holds the keys before. -/
def pairs (c : Tape) : (fuel depth : Nat) → (seen : List Value) → (place jumps : Nat) →
    Option (List (Value × Value) × Nat × Nat)
  | 0, _, _, _, _ => none
  | fuel + 1, depth, seen, place, jumps =>
    match c.nodes[place]? with
    | some .mappingEnd => some ([], place + 1, jumps)
    | _ => do
      let (k, place, jumps) ← c.value fuel depth false place jumps
      if seen.any k.same then none
      let (v, place, jumps) ← c.value fuel depth false place jumps
      let (ps, place, jumps) ← c.pairs fuel depth (k :: seen) place jumps
      pure ((k, v) :: ps, place, jumps)

end

end Tape

/-- The greatest depth to which collections nest. -/
def depthLimit : Nat := 128

/-- The value of a list of events; none are an empty document. -/
def Value.ofEvents? (es : List Event) : Option Value := do
  let a ← es.foldlM Anchors.step {}
  if a.nodes.isEmpty then pure .null
  else
    let c : Tape := ⟨a.nodes.reverse.toArray, a.places⟩
    let fuel := (depthLimit + 2) * (2 * es.length + 2)
    let (v, _, _) ← c.value fuel depthLimit false 0 0
    pure v

/-- The value that a text holds. -/
def Value.ofText? (text : String) : Option Value := do
  let ts ← tokens? text
  let es ← Event.ofTokens? ts
  Value.ofEvents? es

end Muster.Yaml
