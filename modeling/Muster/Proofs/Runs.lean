import Muster.Proofs.Moves

/-!
# Runs of a fleet

What holds of every client after every run: a property of clients that does not speak of the
store is an invariant as soon as each move of a client keeps it.
-/
namespace Muster

namespace Fleet

variable {setups : Nat → Setup} {f g : Fleet} {i j : Nat} {m : Move} {w : World}

theorem world?_start {store : Memory} {n : Nat} (h : (start store n).world? i = some w) :
    w = { store } := by
  obtain ⟨v, hv, rfl⟩ := Option.map_eq_some_iff.1 h
  rw [List.eq_of_mem_replicate (List.mem_of_getElem? hv)]
  rfl

theorem store_of_world? (h : f.world? i = some w) : w.store = f.store := by
  obtain ⟨v, -, rfl⟩ := Option.map_eq_some_iff.1 h
  rfl

/-- A move of the fleet is a move of one client; the others find the store that it leaves. -/
theorem move_cases (h : f.move setups i m = some g) :
    ∃ w w', f.world? i = some w ∧ w.move (setups i) m = some w' ∧ g.store = w'.store ∧
      g.world? i = some w' ∧
      ∀ j, i ≠ j → g.world? j = (f.world? j).map fun v => { v with store := w'.store } := by
  obtain ⟨w, hw, h⟩ := Option.bind_eq_some_iff.1 h
  obtain ⟨w', hm, rfl⟩ := Option.map_eq_some_iff.1 h
  have hi : i < f.worlds.length := by
    obtain ⟨v, hv, -⟩ := Option.map_eq_some_iff.1 hw
    exact (List.getElem?_eq_some_iff.1 hv).1
  refine ⟨w, w', hw, hm, rfl, ?_, fun j hj => ?_⟩
  · simp [world?, hi]
  · simp [world?, hj, Function.comp_def]

theorem Reaches.trans {f g h : Fleet} (hfg : Reaches setups f g) (hgh : Reaches setups g h) :
    Reaches setups f h := by
  induction hgh with
  | refl => exact hfg
  | move past next ih => exact ih.move next

theorem Reachable.reaches (hf : Reachable setups f) (h : Reaches setups f g) :
    Reachable setups g := by
  obtain ⟨store, n, hs, hr⟩ := hf
  exact ⟨store, n, hs, hr.trans h⟩

/-- What the moves of a client keep, and no change of the store breaks, a run keeps of it. -/
theorem Reaches.keeps_own {P : World → Prop}
    (hstore : ∀ w store, P w → P { w with store })
    (hmove : ∀ w w' m, P w → w.move (setups i) m = some w' → P w')
    (h : Reaches setups f g) (hf : ∀ v, f.world? i = some v → P v) (hw : g.world? i = some w) :
    P w := by
  induction h generalizing w with
  | refl => exact hf w hw
  | @move g h j m past next ih =>
    obtain ⟨v, v', hv, hm, -, hi, hothers⟩ := move_cases next
    by_cases hj : j = i
    · subst hj
      rw [hi] at hw
      exact Option.some.inj hw ▸ hmove v v' m (ih hv) hm
    · rw [hothers i hj] at hw
      obtain ⟨u, hu, rfl⟩ := Option.map_eq_some_iff.1 hw
      exact hstore u _ (ih hu)

/-- What a move of one client keeps, whatever its setup, a run keeps. -/
theorem Reaches.keeps {P : World → Prop}
    (hstore : ∀ w store, P w → P { w with store })
    (hmove : ∀ k w w' m, P w → w.move (setups k) m = some w' → P w')
    (h : Reaches setups f g) (hf : ∀ v, f.world? i = some v → P v) (hw : g.world? i = some w) :
    P w :=
  h.keeps_own hstore (fun w w' m => hmove i w w' m) hf hw

/-- A property of new clients that moves keep holds of every client that is reached. -/
theorem Reachable.keeps {P : World → Prop} (hstart : ∀ store, P { store })
    (hstore : ∀ w store, P w → P { w with store })
    (hmove : ∀ k w w' m, P w → w.move (setups k) m = some w' → P w')
    (hf : Reachable setups f) (hw : f.world? i = some w) : P w := by
  obtain ⟨store, n, -, h⟩ := hf
  exact h.keeps hstore hmove (fun v hv => world?_start hv ▸ hstart store) hw

/-! ## Runs of a kind -/

/-- The states that moves of a kind lead to. -/
inductive Guarded (setups : Nat → Setup) (ok : Nat → Move → Fleet → Fleet → Prop) (f : Fleet) :
    Fleet → Prop where
  | refl : Guarded setups ok f f
  | move {g h : Fleet} {i : Nat} {m : Move} (past : Guarded setups ok f g)
      (next : g.move setups i m = some h) (allowed : ok i m g h) : Guarded setups ok f h

section
variable {ok : Nat → Move → Fleet → Fleet → Prop} {h : Fleet}

theorem Guarded.reaches (hg : Guarded setups ok f g) : Reaches setups f g := by
  induction hg with
  | refl => exact .refl
  | move _ next _ ih => exact ih.move next

theorem Guarded.trans (hfg : Guarded setups ok f g) (hgh : Guarded setups ok g h) :
    Guarded setups ok f h := by
  induction hgh with
  | refl => exact hfg
  | move _ next allowed ih => exact ih.move next allowed

theorem Guarded.mono {ok' : Nat → Move → Fleet → Fleet → Prop} (hg : Guarded setups ok f g)
    (h : ∀ i m g h, ok i m g h → ok' i m g h) : Guarded setups ok' f g := by
  induction hg with
  | refl => exact .refl
  | move _ next allowed ih => exact ih.move next (h _ _ _ _ allowed)

end

/-! ## Given runs -/

/-- Makes moves one after another, each by the client of this number. -/
def run (setups : Nat → Setup) (f : Fleet) : List (Nat × Move) → Option Fleet
  | [] => some f
  | (i, m) :: rest => (f.move setups i m).bind fun g => g.run setups rest

theorem reaches_of_run {ms : List (Nat × Move)} (h : f.run setups ms = some g) :
    Reaches setups f g := by
  induction ms generalizing f with
  | nil =>
    cases h
    exact .refl
  | cons m rest ih =>
    obtain ⟨v, hv, hrest⟩ := Option.bind_eq_some_iff.1 h
    exact (Reaches.refl.move hv).trans (ih hrest)

/-- Makes moves one after another, as long as they are of the kind. -/
def runGuarded (setups : Nat → Setup) (ok : Nat → Move → Fleet → Fleet → Prop)
    [∀ i m f g, Decidable (ok i m f g)] (f : Fleet) : List (Nat × Move) → Option Fleet
  | [] => some f
  | (i, m) :: rest => (f.move setups i m).bind fun g =>
    if ok i m f g then g.runGuarded setups ok rest else none

theorem guarded_of_run {ok : Nat → Move → Fleet → Fleet → Prop}
    [∀ i m f g, Decidable (ok i m f g)] {ms : List (Nat × Move)}
    (h : f.runGuarded setups ok ms = some g) : Guarded setups ok f g := by
  induction ms generalizing f with
  | nil =>
    cases h
    exact .refl
  | cons p rest ih =>
    obtain ⟨v, hv, hrest⟩ := Option.bind_eq_some_iff.1 h
    split at hrest
    · next hok => exact (Guarded.refl.move hv hok).trans (ih hrest)
    · cases hrest

theorem reachable_of_run {ms : List (Nat × Move)} {store : Memory} {n : Nat}
    (hs : store.channels.entries = []) (h : (start store n).run setups ms = some g) :
    Reachable setups g := ⟨store, n, hs, reaches_of_run h⟩

/-- A client that given moves lead to, as far as a test can tell. -/
theorem exists_of_run (setups : Nat → Setup) (store : Memory) (n i : Nat)
    (ms : List (Nat × Move)) (P : World → Bool) (hs : store.channels.entries = [])
    (h : (((start store n).run setups ms).bind fun f => f.world? i).any P = true) :
    ∃ f w, Reachable setups f ∧ f.world? i = some w ∧ P w = true := by
  obtain ⟨w, hw, hp⟩ := (Option.any_eq_true _ _).1 h
  obtain ⟨f, hf, hw⟩ := Option.bind_eq_some_iff.1 hw
  exact ⟨f, w, reachable_of_run hs hf, hw, hp⟩

end Fleet

/-- A client with the usual settings, whose listeners do nothing. -/
def Setup.plain (identity : String) : Setup := { config := { identity }, source := fun _ => none }

/-- A client with the usual settings, for which all keys map to one cluster. -/
def Setup.mapped (identity cluster : String) : Setup :=
  { config := { identity, cluster }, source := fun _ => some cluster }

end Muster
