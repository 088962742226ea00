/-!
# Tables

A finite map as a list of pairs, in the order in which the keys were first put. `insert` keeps at
most one pair per key. Every operation is pinned by what `get?` answers afterwards.

The maps by key in the stores, caches and registries of the program are tables here.
-/
namespace Muster

structure Table (κ α : Type) where
  entries : List (κ × α)
deriving Repr

namespace Table

variable {κ α : Type} [DecidableEq κ]

def empty : Table κ α := ⟨[]⟩

instance : EmptyCollection (Table κ α) := ⟨empty⟩

instance : Inhabited (Table κ α) := ⟨empty⟩

/-- The value of the first pair with this key. -/
def find? (k : κ) : List (κ × α) → Option α
  | [] => none
  | p :: rest => if p.1 = k then some p.2 else find? k rest

def get? (t : Table κ α) (k : κ) : Option α := find? k t.entries

def contains (t : Table κ α) (k : κ) : Bool := (t.get? k).isSome

/-- Sets the value of the first pair with this key, or adds a pair at the end. -/
def put (k : κ) (v : α) : List (κ × α) → List (κ × α)
  | [] => [(k, v)]
  | p :: rest => if p.1 = k then (k, v) :: rest else p :: put k v rest

def insert (t : Table κ α) (k : κ) (v : α) : Table κ α := ⟨put k v t.entries⟩

def erase (t : Table κ α) (k : κ) : Table κ α := ⟨t.entries.filter fun p => p.1 ≠ k⟩

/-- Applies `f` to the value of a key that is present. -/
def modify (t : Table κ α) (k : κ) (f : α → α) : Table κ α :=
  match t.get? k with
  | some v => t.insert k (f v)
  | none => t

def keys (t : Table κ α) : List κ := t.entries.map (·.1)

def size (t : Table κ α) : Nat := t.entries.length

/-- The pairs put one after another; a later pair wins. -/
def ofList (ps : List (κ × α)) : Table κ α := ps.foldl (fun t p => t.insert p.1 p.2) empty

theorem mem_of_find? {k : κ} {v : α} {es : List (κ × α)} (h : find? k es = some v) :
    (k, v) ∈ es := by
  induction es with
  | nil => cases h
  | cons p rest ih =>
    unfold find? at h
    split at h
    · next hp =>
      cases h
      exact hp ▸ .head _
    · exact .tail p (ih h)

theorem mem_of_get? {t : Table κ α} {k : κ} {v : α} (h : t.get? k = some v) : (k, v) ∈ t.entries :=
  mem_of_find? h

theorem mem_keys_iff {t : Table κ α} {k : κ} : k ∈ t.keys ↔ t.get? k ≠ none := by
  obtain ⟨es⟩ := t
  induction es with
  | nil => simp [keys, get?, find?]
  | cons p rest ih =>
    simp only [keys, get?] at ih
    by_cases hp : p.1 = k
    · simp [keys, get?, find?, hp]
    · simp [keys, get?, find?, hp, ih, Ne.symm hp]

@[simp] theorem get?_empty (k : κ) : (∅ : Table κ α).get? k = none := rfl

theorem find?_put (k k' : κ) (v : α) (es : List (κ × α)) :
    find? k' (put k v es) = if k = k' then some v else find? k' es := by
  induction es with
  | nil => simp [put, find?]
  | cons p rest ih =>
    by_cases h : p.1 = k
    · by_cases h' : k = k' <;> simp [put, find?, h, h']
    · by_cases h' : k = k'
      · subst h'; simp [put, find?, h, ih]
      · simp [put, find?, h, h', ih]

@[simp] theorem get?_insert (t : Table κ α) (k k' : κ) (v : α) :
    (t.insert k v).get? k' = if k = k' then some v else t.get? k' :=
  find?_put k k' v t.entries

theorem find?_filter_ne (k k' : κ) (es : List (κ × α)) :
    find? k' (es.filter fun p => p.1 ≠ k) = if k = k' then none else find? k' es := by
  induction es with
  | nil => simp [find?]
  | cons p rest ih =>
    by_cases h : p.1 = k
    · subst h
      rw [List.filter_cons_of_neg (by simp), ih]
      by_cases h' : p.1 = k' <;> simp [find?, h']
    · rw [List.filter_cons_of_pos (by simpa using h)]
      by_cases h' : k = k'
      · subst h'; simp only [find?, if_neg h, ih, if_true]
      · simp only [find?, ih, if_neg h']

@[simp] theorem get?_erase (t : Table κ α) (k k' : κ) :
    (t.erase k).get? k' = if k = k' then none else t.get? k' :=
  find?_filter_ne k k' t.entries

theorem erase_of_get? {t : Table κ α} {k : κ} (h : t.get? k = none) : t.erase k = t := by
  have kept : ∀ es : List (κ × α), find? k es = none → es.filter (fun p => p.1 ≠ k) = es := by
    intro es
    induction es with
    | nil => exact fun _ => rfl
    | cons p rest ih =>
      intro hnone
      unfold find? at hnone
      split at hnone
      · cases hnone
      · next hp => rw [List.filter_cons_of_pos (by simpa using hp), ih hnone]
  simp only [erase, kept t.entries h]

@[simp] theorem get?_modify (t : Table κ α) (k k' : κ) (f : α → α) :
    (t.modify k f).get? k' = if k = k' then (t.get? k').map f else t.get? k' := by
  unfold modify
  by_cases h : k = k'
  · subst h
    cases hk : t.get? k <;> simp [hk]
  · cases hk : t.get? k <;> simp [h]

end Table

end Muster
