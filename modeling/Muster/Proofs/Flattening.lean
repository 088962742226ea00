import Mathlib.Data.List.Induction
import Muster.Config.Flat

/-!
# What flattening keeps

The leaves of a document in its order, each under the texts of the keys above it, and between them
the places that have no room among settings (`Settings.findings`). A document without such places is
flattened to its leaves, a later one going before an earlier one under the same dotted path, and any
other is refused at the first of them. So it does not matter whether pairs are nested under a key or
written with dotted keys (`Settings.Respells`).
-/
namespace Muster.Settings

open Yaml

/-! ## What a document holds -/

/-- A value is another one or stands somewhere in it, outside of keys. -/
inductive Holds : Value → Value → Prop
  | self (v : Value) : Holds v v
  | item {vs : List Value} {v u : Value} (h : v ∈ vs) (below : Holds v u) : Holds (.sequence vs) u
  | pair {ps : List (Value × Value)} {k v u : Value} (h : (k, v) ∈ ps) (below : Holds v u) :
    Holds (.mapping ps) u
  | content {tag : String} {v u : Value} (below : Holds v u) : Holds (.tagged tag v) u

/-- A string, a number or a boolean. -/
inductive IsSimple : Value → Prop
  | string (s : String) : IsSimple (.string s)
  | number (n : Number) : IsSimple (.number n)
  | bool (b : Bool) : IsSimple (.bool b)

/-- There is no sequence, and all keys are simple. -/
structure IsFlat (v : Value) : Prop where
  unlisted : ∀ vs, ¬ Holds v (.sequence vs)
  keyed : ∀ {ps k u}, Holds v (.mapping ps) → (k, u) ∈ ps → IsSimple k

inductive Content where
  /-- A scalar other than null, by its text. -/
  | leaf (text : String)
  | sequence
  /-- A key that is not simple, in the mapping at this place. -/
  | key
deriving DecidableEq, Repr

/-- What was found in a document, and the texts of the keys above it. -/
structure Finding where
  keys : List String
  content : Content
deriving DecidableEq, Repr

def Finding.under (segment : String) (f : Finding) : Finding :=
  { f with keys := segment :: f.keys }

mutual

/-- The leaves of a value and what keeps it from being flat, in the order of the document. -/
def findings : Value → List Finding
  | .null => []
  | .string s => [⟨[], .leaf s⟩]
  | .number n => [⟨[], .leaf n.text⟩]
  | .bool b => [⟨[], .leaf (if b then "true" else "false")⟩]
  | .sequence _ => [⟨[], .sequence⟩]
  | .tagged _ v => findings v
  | .mapping ps => findingsOf ps

def findingsOf : List (Value × Value) → List Finding
  | [] => []
  | (k, v) :: ps =>
    (match scalarText? k with
      | some segment => (findings v).map (.under segment)
      | none => [⟨[], .key⟩]) ++ findingsOf ps

end

/-- A path as a text: the keys joined by dots, without those in front that are empty. -/
def dotted (keys : List String) : String := ".".intercalate (keys.dropWhile (· = ""))

/-- What is made of something at a path: a setting, or a complaint. -/
def Content.entry (path : String) : Content → Except Fault (String × String)
  | leaf text => .ok (path, text)
  | sequence => .error (.configuration ("sequences are not supported (key '" ++ path ++ "')"))
  | key => .error (.configuration ("non-scalar key under '" ++ path ++ "'"))

def faultOf? : Except Fault (String × String) → Option Fault
  | .ok _ => none
  | .error f => some f

namespace Finding

/-- The setting that a leaf makes. -/
def setting? (f : Finding) : Option (String × String) :=
  (f.content.entry (dotted f.keys)).toOption

/-- The complaint about anything else. -/
def fault? (f : Finding) : Option Fault := faultOf? (f.content.entry (dotted f.keys))

end Finding

/-- The same value under the text of another key, a dot and its own key. -/
def dot (segment : String) (p : Value × Value) : Value × Value :=
  match scalarText? p.1 with
  | some own => (.string (segment ++ "." ++ own), p.2)
  | none => p

/-- Somewhere in a document, the pairs under a key are written with dotted keys instead, or the
other way round; everything else stays, and so does the order of all leaves. -/
inductive Respells : Value → Value → Prop
  | dotted {before inner after : List (Value × Value)} {k : Value} {segment : String}
    (text : scalarText? k = some segment) (named : segment ≠ "")
    (simple : ∀ p ∈ inner, IsSimple p.1) :
    Respells (.mapping (before ++ (k, .mapping inner) :: after))
      (.mapping (before ++ (inner.map (dot segment) ++ after)))
  | pair {before after : List (Value × Value)} {k v u : Value} (below : Respells v u) :
    Respells (.mapping (before ++ (k, v) :: after)) (.mapping (before ++ (k, u) :: after))
  | content {tag : String} {v u : Value} (below : Respells v u) :
    Respells (.tagged tag v) (.tagged tag u)
  | refl (v : Value) : Respells v v
  | symm {v u : Value} (h : Respells v u) : Respells u v
  | trans {v u x : Value} (h : Respells v u) (h' : Respells u x) : Respells v x

section

variable {path segment : String} {k v u : Value} {ps : List (Value × Value)} {f : Finding}

/-! ## Paths -/

theorem below_empty (segment : String) : below "" segment = segment := rfl

theorem below_of_ne (h : path ≠ "") : below path segment = path ++ "." ++ segment := if_neg h

theorem below_ne (h : path ≠ "") : below path segment ≠ "" := by
  rw [below_of_ne h]
  intro hempty
  simp at hempty

/-- A key that goes on from another one is as good as one below it. -/
theorem below_below (h : segment ≠ "") (own : String) :
    below (below path segment) own = below path (segment ++ "." ++ own) := by
  by_cases hpath : path = ""
  · rw [hpath, below_empty, below_empty, below_of_ne h]
  · rw [below_of_ne (below_ne hpath), below_of_ne hpath, below_of_ne hpath]
    simp only [String.append_assoc]

theorem foldl_below_of_ne (h : path ≠ "") (keys : List String) :
    keys.foldl below path = ".".intercalate (path :: keys) := by
  induction keys generalizing path with
  | nil => rfl
  | cons segment rest ih =>
    rw [List.foldl_cons, ih (below_ne h), below_of_ne h]
    rfl

theorem foldl_below (keys : List String) : keys.foldl below "" = dotted keys := by
  induction keys with
  | nil => rfl
  | cons segment rest ih =>
    rw [List.foldl_cons, below_empty, dotted]
    by_cases h : segment = ""
    · rw [h, ih, List.dropWhile_cons_of_pos (by simp)]
      rfl
    · rw [foldl_below_of_ne h, List.dropWhile_cons_of_neg (by simpa using h)]

/-! ## Findings below a path -/

/-- What is made of a finding in a value that stands at a path. -/
def Finding.entry (path : String) (f : Finding) : Except Fault (String × String) :=
  f.content.entry (f.keys.foldl below path)

theorem Finding.toOption_entry (f : Finding) : (f.entry "").toOption = f.setting? := by
  rw [entry, foldl_below]
  rfl

theorem Finding.faultOf?_entry (f : Finding) : faultOf? (f.entry "") = f.fault? := by
  rw [entry, foldl_below]
  rfl

/-- The entries of a value at a path. -/
def entries (path : String) (fs : List Finding) : List (Except Fault (String × String)) :=
  fs.map (Finding.entry path)

theorem entries_append (fs gs : List Finding) :
    entries path (fs ++ gs) = entries path fs ++ entries path gs := List.map_append

theorem entries_under (path segment : String) (fs : List Finding) :
    entries path (fs.map (.under segment)) = entries (below path segment) fs := by
  rw [entries, List.map_map]
  rfl

theorem findingsOf_cons (htext : scalarText? k = some segment) (v : Value)
    (ps : List (Value × Value)) :
    findingsOf ((k, v) :: ps) = (findings v).map (.under segment) ++ findingsOf ps := by
  simp only [findingsOf, htext]

theorem findingsOf_cons_of_none (hnone : scalarText? k = none) (v : Value)
    (ps : List (Value × Value)) : findingsOf ((k, v) :: ps) = ⟨[], .key⟩ :: findingsOf ps := by
  simp only [findingsOf, hnone, List.singleton_append]

theorem findingsOf_append (ps qs : List (Value × Value)) :
    findingsOf (ps ++ qs) = findingsOf ps ++ findingsOf qs := by
  induction ps with
  | nil => simp [findingsOf]
  | cons p ps ih => simp [findingsOf, ih]

theorem isSimple_iff : IsSimple k ↔ ∃ text, scalarText? k = some text := by
  constructor
  · rintro (s | n | b)
    · exact ⟨_, rfl⟩
    · exact ⟨_, rfl⟩
    · cases b <;> exact ⟨_, rfl⟩
  · rintro ⟨text, h⟩
    unfold scalarText? at h
    split at h
    · exact .string _
    · exact .number _
    · exact .bool _
    · exact .bool _
    · cases h

/-- Dotted keys leave the entries as they are. -/
theorem entries_dot (hs : segment ≠ "") (simple : ∀ p ∈ ps, IsSimple p.1) :
    entries path (findingsOf (ps.map (dot segment))) =
      entries (below path segment) (findingsOf ps) := by
  induction ps with
  | nil => rfl
  | cons p ps ih =>
    obtain ⟨own, hown⟩ := isSimple_iff.1 (simple p List.mem_cons_self)
    have hdot : dot segment p = (.string (segment ++ "." ++ own), p.2) := by
      simp only [dot, hown]
    have hrest := ih fun q hq => simple q (List.mem_cons_of_mem _ hq)
    rw [List.map_cons, hdot, findingsOf_cons rfl, findingsOf_cons hown]
    simp only [entries_append, entries_under, hrest, below_below hs]

theorem Respells.entries (h : Respells v u) :
    ∀ path, Settings.entries path (findings v) = Settings.entries path (findings u) := by
  induction h with
  | dotted htext hnamed hsimple =>
    intro path
    simp only [findings, findingsOf_append, findingsOf_cons htext, entries_append, entries_under,
      entries_dot hnamed hsimple]
  | @pair before after k v u _ ih =>
    intro path
    simp only [findings, findingsOf_append, entries_append]
    cases htext : scalarText? k with
    | none => rw [findingsOf_cons_of_none htext, findingsOf_cons_of_none htext]
    | some segment => simp only [findingsOf_cons htext, entries_append, entries_under, ih]
  | content _ ih => exact ih
  | refl => exact fun _ => rfl
  | symm _ ih => exact fun path => (ih path).symm
  | trans _ _ ih ih' => exact fun path => (ih path).trans (ih' path)

/-! ## Flat documents -/

theorem fault?_under : (f.under segment).fault? = none ↔ f.fault? = none := by
  obtain ⟨keys, content⟩ := f
  cases content <;> simp [Finding.fault?, Finding.under, Content.entry, faultOf?]

/-- In a document without complaints all values that it holds are without. -/
theorem Holds.unfaulted (h : Holds v u) (hv : ∀ f ∈ findings v, f.fault? = none) :
    ∀ f ∈ findings u, f.fault? = none := by
  induction h with
  | self => exact hv
  | item => exact nomatch hv _ List.mem_cons_self
  | @pair ps k v u hmem _ ih =>
    obtain ⟨before, after, rfl⟩ := List.append_of_mem hmem
    simp only [findings, findingsOf_append, List.mem_append] at hv
    cases htext : scalarText? k with
    | none => exact nomatch hv ⟨[], .key⟩ (by simp [findingsOf_cons_of_none htext])
    | some segment =>
      refine ih fun f hf => fault?_under.1 (hv (f.under segment) (.inr ?_))
      rw [findingsOf_cons htext, List.mem_append]
      exact .inl (List.mem_map_of_mem hf)
  | content _ ih => exact ih hv

theorem Holds.trans {x : Value} (h : Holds v u) (h' : Holds u x) : Holds v x := by
  induction h with
  | self => exact h'
  | item hmem _ ih => exact .item hmem (ih h')
  | pair hmem _ ih => exact .pair hmem (ih h')
  | content _ ih => exact .content (ih h')

theorem IsFlat.of_holds (h : IsFlat v) (hu : Holds v u) : IsFlat u :=
  ⟨fun vs hvs => h.unlisted vs (hu.trans hvs), fun hps => h.keyed (hu.trans hps)⟩

mutual

theorem IsFlat.unfaulted : ∀ {v : Value}, IsFlat v → ∀ f ∈ findings v, f.fault? = none
  | .null, _ => by simp [findings]
  | .string _, _ | .number _, _ | .bool _, _ => by
    simp [findings, Finding.fault?, Content.entry, faultOf?]
  | .sequence vs, h => absurd (.self _) (h.unlisted vs)
  | .tagged _ v, h => IsFlat.unfaulted (v := v) (h.of_holds (.content (.self v)))
  | .mapping _, h => unfaulted_pairs fun _ _ hmem =>
    ⟨h.keyed (.self _) hmem, h.of_holds (.pair hmem (.self _))⟩

theorem unfaulted_pairs : ∀ {ps : List (Value × Value)},
    (∀ k v, (k, v) ∈ ps → IsSimple k ∧ IsFlat v) → ∀ f ∈ findingsOf ps, f.fault? = none
  | [], _ => by simp [findingsOf]
  | (k, v) :: ps, h => by
    obtain ⟨hk, hv⟩ := h k v List.mem_cons_self
    obtain ⟨segment, htext⟩ := isSimple_iff.1 hk
    have hrest := unfaulted_pairs fun k' v' hmem => h k' v' (List.mem_cons_of_mem _ hmem)
    have hhead := IsFlat.unfaulted hv
    simp only [findingsOf_cons htext, List.mem_append, List.mem_map]
    rintro f (⟨g, hg, rfl⟩ | hf)
    · exact fault?_under.2 (hhead g hg)
    · exact hrest f hf

end

/-- Flat documents are those that call for no complaint. -/
theorem isFlat_iff : IsFlat v ↔ ∀ f ∈ findings v, f.fault? = none := by
  refine ⟨IsFlat.unfaulted, fun h => ⟨fun vs hvs => ?_, fun {ps k u} hps hmem => ?_⟩⟩
  · exact nomatch hvs.unfaulted h ⟨[], .sequence⟩ (by simp [findings])
  · have hnone := hps.unfaulted h
    obtain ⟨before, after, rfl⟩ := List.append_of_mem hmem
    refine isSimple_iff.2 (Option.ne_none_iff_exists'.1 fun htext => ?_)
    refine nomatch hnone ⟨[], .key⟩ ?_
    simp [findings, findingsOf_append, findingsOf_cons_of_none htext]

/-! ## Flattening -/

/-- An entry is added to settings, or refused. -/
def store (out : Settings) : Except Fault (String × String) → Except Fault Settings
  | .ok p => .ok (out.insert p.1 p.2)
  | .error f => .error f

mutual

/-- Flattening stores what is found, one after another. -/
theorem addValue_eq (path : String) : ∀ (v : Value) (out : Settings),
    addValue path v out = (entries path (findings v)).foldlM store out
  | .null, _ | .string _, _ | .number _, _ | .bool _, _ | .sequence _, _ => rfl
  | .tagged _ v, out => addValue_eq path v out
  | .mapping ps, out => addPairs_eq path ps out

theorem addPairs_eq (path : String) : ∀ (ps : List (Value × Value)) (out : Settings),
    addPairs path ps out = (entries path (findingsOf ps)).foldlM store out
  | [], _ => rfl
  | (k, v) :: ps, out => by
    rw [addPairs]
    cases htext : scalarText? k with
    | none => rw [findingsOf_cons_of_none htext]; rfl
    | some segment =>
      simp only [findingsOf_cons htext, entries_append, entries_under, List.foldlM_append,
        addValue_eq]
      cases (entries (below path segment) (findings v)).foldlM store out with
      | error f => rfl
      | ok out => exact addPairs_eq path ps out

end

theorem foldlM_store (es : List (Except Fault (String × String))) (out : Settings) :
    es.foldlM store out = match es.findSome? faultOf? with
      | some f => .error f
      | none => .ok ((es.filterMap Except.toOption).foldl (fun t p => t.insert p.1 p.2) out) := by
  induction es generalizing out with
  | nil => rfl
  | cons e es ih =>
    cases e with
    | error f => rfl
    | ok p => exact ih _

/-- The first complaint refuses a document; without one the leaves are its settings. -/
theorem ofValue_mapping (ps : List (Value × Value)) :
    ofValue (.mapping ps) = match (findings (.mapping ps)).findSome? Finding.fault? with
      | some f => .error f
      | none => .ok (.ofList ((findings (.mapping ps)).filterMap Finding.setting?)) := by
  rw [ofValue, addPairs_eq, foldlM_store, entries, List.findSome?_map, List.filterMap_map]
  simp only [Function.comp_def, Finding.faultOf?_entry, Finding.toOption_entry]
  rfl

theorem ofList_concat (ps : List (String × String)) (p : String × String) :
    Table.ofList (ps ++ [p]) = (Table.ofList ps).insert p.1 p.2 := by
  rw [Table.ofList, List.foldl_append]
  rfl

/-- Of several settings under one key the last counts. -/
theorem get?_ofList (ps : List (String × String)) (k : String) :
    (Table.ofList ps).get? k = ((ps.filter (·.1 = k)).getLast?).map (·.2) := by
  induction ps using List.reverseRecOn with
  | nil => rfl
  | append_singleton ps p ih =>
    rw [ofList_concat, Table.get?_insert, ih, List.filter_append]
    by_cases hp : p.1 = k <;> simp [hp]

theorem Finding.exists_of_fault? {x : Fault} (h : f.fault? = some x) :
    ∃ detail, x = .configuration detail := by
  unfold Finding.fault? Content.entry at h
  split at h <;> cases h <;> exact ⟨_, rfl⟩

instance : Decidable (IsFlat v) := decidable_of_iff _ isFlat_iff.symm

end

/-- A document without sequences, and whose keys are strings, numbers and booleans, is flattened to
its leaves: under every key stands the last one with this path. Any other is refused at the first
place, in its order, that is a sequence or has another key. Documents with the same leaves at the
same paths, in one order, are flattened alike, so pairs may as well be written with dotted keys. -/
theorem flattening_keeps_leaves (ps : List (Value × Value)) :
    (IsFlat (.mapping ps) → ∃ t, ofValue (.mapping ps) = .ok t ∧ ∀ k, t.get? k =
      ((((findings (.mapping ps)).filterMap Finding.setting?).filter (·.1 = k)).getLast?).map
        (·.2)) ∧
    (¬ IsFlat (.mapping ps) → ∃ before f after detail,
      findings (.mapping ps) = before ++ f :: after ∧ (∀ g ∈ before, g.fault? = none) ∧
      f.fault? = some (.configuration detail) ∧
      ofValue (.mapping ps) = .error (.configuration detail)) ∧
    (∀ qs, IsFlat (.mapping ps) → IsFlat (.mapping qs) →
      (findings (.mapping ps)).filterMap Finding.setting? =
        (findings (.mapping qs)).filterMap Finding.setting? →
      ofValue (.mapping ps) = ofValue (.mapping qs)) ∧
    ∀ qs, Respells (.mapping ps) (.mapping qs) →
      ofValue (.mapping ps) = ofValue (.mapping qs) := by
  have flat : ∀ qs, IsFlat (.mapping qs) → ofValue (.mapping qs) =
      .ok (.ofList ((findings (.mapping qs)).filterMap Finding.setting?)) := fun qs hflat => by
    rw [ofValue_mapping, List.findSome?_eq_none_iff.2 (isFlat_iff.1 hflat)]
  refine ⟨fun hflat => ⟨_, flat ps hflat, get?_ofList _⟩, fun hnot => ?_,
    fun qs hps hqs hsame => ?_, fun qs hqs => ?_⟩
  · obtain ⟨x, hx⟩ : ∃ x, (findings (.mapping ps)).findSome? Finding.fault? = some x :=
      Option.ne_none_iff_exists'.1 fun hnone =>
        hnot (isFlat_iff.2 (List.findSome?_eq_none_iff.1 hnone))
    obtain ⟨before, f, after, hsplit, hf, hbefore⟩ := List.findSome?_eq_some_iff.1 hx
    obtain ⟨detail, rfl⟩ := Finding.exists_of_fault? hf
    exact ⟨before, f, after, detail, hsplit, hbefore, hf, by rw [ofValue_mapping, hx]⟩
  · rw [flat ps hps, flat qs hqs, hsame]
  · have hentries : entries "" (findingsOf ps) = entries "" (findingsOf qs) := hqs.entries ""
    rw [ofValue, ofValue, addPairs_eq, addPairs_eq, hentries]

/-- Keys that meet under one path, an empty key in front, a tag and a null; a bad key before a
sequence; and a mapping written with dotted keys. -/
theorem flattening_keeps_leaves_met :
    let one : Value := .number (.integer 1)
    let doc : List (Value × Value) :=
      [(.string "a", .mapping [(.string "b", one), (.bool true, .tagged "t" (.string "x"))]),
        (.string "a.b", .string "y"), (.string "", .mapping [(.string "c", .null), (one, one)])]
    let bad : List (Value × Value) :=
      [(.string "a", .mapping [(.string "b", one), (.null, one)]), (.string "c", .sequence [one])]
    let nested : List (Value × Value) := [(one, .mapping [(.string "b", one)])]
    let plain : List (Value × Value) := [(.string "1.b", one)]
    (IsFlat (.mapping doc) ∧ ∃ t, ofValue (.mapping doc) = .ok t ∧ t.get? "a.b" = some "y" ∧
      t.get? "a.true" = some "x" ∧ t.get? "1" = some "1" ∧ t.get? "c" = none) ∧
    (¬ IsFlat (.mapping bad) ∧ ∃ detail, ofValue (.mapping bad) = .error (.configuration detail)) ∧
    Respells (.mapping nested) (.mapping plain) ∧
      ofValue (.mapping nested) = ofValue (.mapping plain) := by
  intro one doc bad nested plain
  have hdoc : IsFlat (.mapping doc) := by decide +kernel
  have hbad : ¬ IsFlat (.mapping bad) := by decide +kernel
  have hrespells : Respells (.mapping nested) (.mapping plain) := by
    have htext : scalarText? one = some "1" := by decide +kernel
    have hkey : "1" ++ "." ++ "b" = "1.b" := by decide
    have hdotted := @Respells.dotted [] [(.string "b", one)] [] one "1" htext (by decide)
      (by simpa using .string "b")
    simpa [dot, scalarText?, hkey] using hdotted
  obtain ⟨t, ht, hget⟩ := (flattening_keeps_leaves doc).1 hdoc
  obtain ⟨-, -, -, detail, -, -, -, herror⟩ := (flattening_keeps_leaves bad).2.1 hbad
  refine ⟨⟨hdoc, t, ht, ?_⟩, ⟨hbad, detail, herror⟩, hrespells,
    (flattening_keeps_leaves nested).2.2.2 plain hrespells⟩
  simp only [hget]
  decide +kernel

end Muster.Settings
