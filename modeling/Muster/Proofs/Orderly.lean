import Muster.Proofs.MoveEffects

/-!
# Orderly runs

What a move does to hashes and channels (`Airs`). Writers are orderly if each of them announces what
it changed before another one changes the same address, and announces it with success.
-/
namespace Muster

deriving instance DecidableEq for Table, Channel, Memory

instance (key : String) (e : Event) (m m' : Memory) : Decidable (Memory.Announced key e m m') :=
  match h : m.publish key e.encode with
  | .ok (n, m₁) =>
    if heq : m₁ = m' then isTrue ⟨n, heq ▸ h⟩
    else isFalse fun ⟨_, h'⟩ => by
      rw [h] at h'
      cases h'
      exact heq rfl
  | .error _ => isFalse fun ⟨_, h'⟩ => by
      rw [h] at h'
      cases h'

namespace World

variable {setup : Setup} {w w' : World} {m : Move}

/-- What a move does to hashes and channels, and to the announcements that actors have in mind. -/
inductive Airs (setup : Setup) (w w' : World) : Prop where
  | still (hs : w.store.Still w'.store) (hi : ∀ who e, w'.intent? who = some (.announce e) →
      w.intent? who = some (.announce e))
  | wrote {who : Actor} {e : Event} (hb : w.intent? who = some (.write e))
      (ha : w'.intent? who = some (.announce e))
      (hi : ∀ who', who ≠ who' → w'.intent? who' = w.intent? who')
      (hs : Memory.Wrote setup.config.ownKey e w.store w'.store)
  | announced {who : Actor} {e : Event} (hb : w.intent? who = some (.announce e))
      (ha : w'.intent? who = none) (hi : ∀ who', who ≠ who' → w'.intent? who' = w.intent? who')
      (hs : Memory.Announced setup.config.ownKey e w.store w'.store)

theorem awaitStart_store (w : World) (load : Load) : (w.awaitStart load).1.store = w.store := by
  rcases awaitStart_cases w load with heq | ⟨seen, heq⟩
  · rw [heq]
    rfl
  · rw [heq]

theorem takeSnapshot_store (hsup : Supervised w) (load : Load) (fields : List (String × String)) :
    (w.takeSnapshot setup load fields).1.store = w.store := by
  obtain ⟨v, -, hstore, -, -, -, ⟨f, -, -, heq⟩ | ⟨-, -, -, -, heq⟩⟩ :=
    takeSnapshot_cases setup hsup load fields
  · rw [heq]
    exact hstore
  · rw [heq, awaitStart_store]
    exact hstore

/-- Whoever does not reach into the store past the calls of a client writes and announces. -/
theorem Happens.airs (h : Happens setup w m w') (hs : Supervised w) (hin : ¬ w.Loose m) :
    Airs setup w w' := by
  cases h with
  | @acted who trace v after _ d h =>
    have hsup : Supervised { w with trace } := hs.rests (.quiet rfl rfl rfl rfl rfl)
    have others : ∀ who', who ≠ who' → w'.intent? who' = w.intent? who' := fun who' hne =>
      (h.others who' hne).trans (d.edits.intents (Deed.calls (w := { w with trace }) d hsup) who')
    have still : w.store.Still v.store → (∀ e, after = some (.announce e) →
        w.intent? who = some (.announce e)) → Airs setup w w' := by
      intro hstill ha
      refine .still (h.store ▸ hstill) fun who' e hx => ?_
      by_cases hwho : who = who'
      · subst hwho
        exact ha e (h.mine ▸ hx)
      · exact others who' hwho ▸ hx
    cases d with
    | light _ hstill _ _ ha =>
      refine still (hstill.resolve_left hin) fun e he => ?_
      rcases ha _ he with hx | hx
      · exact hx
      · cases hx
    | wrote _ hb _ hw => exact .wrote hb h.mine others (h.store ▸ hw)
    | announced _ hb _ hw => exact .announced hb h.mine others (h.store ▸ hw)
    | @refilled load fields =>
      refine still ?_ fun e he => by cases (takeSnapshot_intent? hsup he).1
      rw [takeSnapshot_store hsup]
      exact .refl _
    | @started load =>
      refine still ?_ fun e he => by cases (awaitStart_intent? he).1
      rw [awaitStart_store]
      exact .refl _
  | rested h hi => exact .still (h.store ▸ .refl _) fun who e hx => hi who ▸ hx
  | @dropped who _ h hnone hi =>
    refine .still (h.store ▸ .refl _) fun who' e hx => ?_
    by_cases hwho : who = who'
    · subst hwho
      rw [hnone] at hx
      cases hx
    · exact hi who' hwho ▸ hx
  | @stopped id v _ hv h =>
    obtain ⟨hnone, hi⟩ := h.intents
    have hstill : w.store.Still w'.store := by
      rcases hv with rfl | ⟨c, rfl⟩
      · exact h.1.still
      · exact h.1.still
    refine .still hstill fun who' e hx => ?_
    by_cases hwho : .task id = who'
    · subst hwho
      rw [hnone] at hx
      cases hx
    · rw [hi who' hwho] at hx
      rcases hv with rfl | ⟨c, rfl⟩
      · exact hx
      · exact hx
  | strode _ ht _ h => exact .still h.still fun who e hx => h.intents ht who ▸ hx

/-! ## What actors have in mind -/

/-- All who may have something in mind. -/
def actors (w : World) : List Actor :=
  (List.range w.tasks.length).map .task ++ w.calls.keys.map .call

/-- The announcements that actors have in mind. -/
def announcements (w : World) : List (Actor × Event) :=
  w.actors.filterMap fun who =>
    match w.intent? who with
    | some (.announce e) => some (who, e)
    | _ => none

theorem mem_actors {w : World} {who : Actor} {x : Intent} (h : w.intent? who = some x) :
    who ∈ w.actors := by
  cases who with
  | task id =>
    obtain ⟨t, ht, -⟩ := Option.bind_eq_some_iff.1 h
    obtain ⟨hlt, -⟩ := List.getElem?_eq_some_iff.1 ht
    simp [actors, hlt]
  | call id =>
    obtain ⟨stage, hs, -⟩ := Option.bind_eq_some_iff.1 h
    have hkey : id ∈ w.calls.keys := Table.mem_keys_iff.2 (by simp [hs])
    simp [actors, hkey]

theorem mem_announcements {w : World} {who : Actor} {e : Event} :
    (who, e) ∈ w.announcements ↔ w.intent? who = some (.announce e) := by
  simp only [announcements, List.mem_filterMap]
  constructor
  · rintro ⟨who', -, h⟩
    split at h
    · next hx =>
      cases h
      exact hx
    · cases h
  · intro h
    exact ⟨who, mem_actors h, by rw [h]⟩

instance (w : World) (m : Move) : Decidable (w.Loose m) :=
  decidable_of_iff (∃ a ∈ w.action? m, a.isOutside = true) Iff.rfl

end World

namespace Fleet

variable {setups : Nat → Setup} {f g : Fleet} {i : Nat} {m : Move} {key : String} {e : Event}
  {w w' : World}

/-- A change of a hash was made and is still to be announced. -/
def InAir (setups : Nat → Setup) (f : Fleet) (key : String) (e : Event) : Prop :=
  ∃ i w who, f.world? i = some w ∧ (setups i).config.ownKey = key ∧
    w.intent? who = some (.announce e)

/-- Nobody changes an address while another one's change of it is still to be announced. -/
def Alone (setups : Nat → Setup) (f : Fleet) : Prop :=
  ∀ i j v w who who' e e', f.world? i = some v → f.world? j = some w →
    (setups i).config.ownKey = (setups j).config.ownKey → v.intent? who = some (.announce e) →
    w.intent? who' = some (.announce e') → e.address = e'.address → i = j ∧ who = who'

/-- The move of a client that uses the store only through its calls, and whose changes stay in mind
until they are announced with success. -/
structure Careful (setups : Nat → Setup) (i : Nat) (m : Move) (f g : Fleet) : Prop where
  inside : ∀ w, f.world? i = some w → ¬ w.Loose m
  heard : ∀ w w' who e, f.world? i = some w → g.world? i = some w' →
    w.intent? who = some (.announce e) → w'.intent? who = some (.announce e) ∨
      Memory.Announced (setups i).config.ownKey e f.store g.store

/-- The states that orderly moves lead to. -/
def Orderly (setups : Nat → Setup) : Fleet → Fleet → Prop :=
  Guarded setups fun i m f g => Careful setups i m f g ∧ Alone setups g

/-! ## Given runs -/

/-- The announcements that actors of any client have in mind. -/
def announcements (f : Fleet) : List (Nat × Actor × Event) :=
  (List.range f.worlds.length).flatMap fun i =>
    match f.world? i with
    | some w => w.announcements.map (i, ·)
    | none => []

theorem mem_announcements {who : Actor} : (i, who, e) ∈ f.announcements ↔
    ∃ w, f.world? i = some w ∧ w.intent? who = some (.announce e) := by
  simp only [announcements, List.mem_flatMap, List.mem_range]
  constructor
  · rintro ⟨j, -, h⟩
    split at h
    · next w hw =>
      obtain ⟨p, hp, heq⟩ := List.mem_map.1 h
      cases heq
      exact ⟨w, hw, World.mem_announcements.1 hp⟩
    · cases h
  · rintro ⟨w, hw, hx⟩
    have hi : i < f.worlds.length := by
      obtain ⟨v, hv, -⟩ := Option.map_eq_some_iff.1 hw
      exact (List.getElem?_eq_some_iff.1 hv).1
    refine ⟨i, hi, ?_⟩
    rw [hw]
    exact List.mem_map.2 ⟨(who, e), World.mem_announcements.2 hx, rfl⟩

theorem not_inAir (h : f.announcements = []) (key : String) (e : Event) : ¬ InAir setups f key e := by
  rintro ⟨i, w, who, hw, -, hx⟩
  have hmem : (i, who, e) ∈ f.announcements := mem_announcements.2 ⟨w, hw, hx⟩
  simp [h] at hmem

instance : Decidable (Careful setups i m f g) :=
  decidable_of_iff (∀ w ∈ f.world? i, ¬ w.Loose m ∧ ∀ w' ∈ g.world? i, ∀ p ∈ w.announcements,
      w'.intent? p.1 = some (.announce p.2) ∨
        Memory.Announced (setups i).config.ownKey p.2 f.store g.store) <| by
    constructor
    · intro h
      exact ⟨fun w hw => (h w hw).1, fun w w' who e hw hw' hx =>
        (h w hw).2 w' hw' (who, e) (World.mem_announcements.2 hx)⟩
    · intro h w hw
      exact ⟨h.inside w hw, fun w' hw' p hp =>
        h.heard w w' p.1 p.2 hw hw' (World.mem_announcements.1 hp)⟩

instance : Decidable (Alone setups f) :=
  decidable_of_iff (∀ p ∈ f.announcements, ∀ q ∈ f.announcements,
      (setups p.1).config.ownKey = (setups q.1).config.ownKey → p.2.2.address = q.2.2.address →
        p.1 = q.1 ∧ p.2.1 = q.2.1) <| by
    constructor
    · intro h i j v w who who' e e' hv hw hkey hx hx' ha
      exact h (i, who, e) (mem_announcements.2 ⟨v, hv, hx⟩) (j, who', e')
        (mem_announcements.2 ⟨w, hw, hx'⟩) hkey ha
    · rintro h ⟨i, who, e⟩ hp ⟨j, who', e'⟩ hq hkey ha
      obtain ⟨v, hv, hx⟩ := mem_announcements.1 hp
      obtain ⟨w, hw, hx'⟩ := mem_announcements.1 hq
      exact h i j v w who who' e e' hv hw hkey hx hx' ha

/-- Makes orderly moves one after another, each by the client of this number. -/
def runOrderly (setups : Nat → Setup) (f : Fleet) : List (Nat × Move) → Option Fleet :=
  f.runGuarded setups fun i m f g => Careful setups i m f g ∧ Alone setups g

theorem orderly_of_run {ms : List (Nat × Move)} (h : f.runOrderly setups ms = some g) :
    Orderly setups f g := guarded_of_run h

/-! ## Changes in the air -/

/-- A change is in the air because of one client, or because of another one. -/
theorem inAir_iff (hw : f.world? i = some w) : InAir setups f key e ↔
    ((setups i).config.ownKey = key ∧ ∃ who, w.intent? who = some (.announce e)) ∨
    ∃ j v who, i ≠ j ∧ f.world? j = some v ∧ (setups j).config.ownKey = key ∧
      v.intent? who = some (.announce e) := by
  constructor
  · rintro ⟨j, v, who, hv, hkey, hx⟩
    by_cases hj : i = j
    · subst hj
      cases hw.symm.trans hv
      exact .inl ⟨hkey, who, hx⟩
    · exact .inr ⟨j, v, who, hj, hv, hkey, hx⟩
  · rintro (⟨hkey, who, hx⟩ | ⟨j, v, who, -, hv, hkey, hx⟩)
    · exact ⟨i, w, who, hw, hkey, hx⟩
    · exact ⟨j, v, who, hv, hkey, hx⟩

/-- One client has moved, and the others have not noticed. -/
structure Only (f g : Fleet) (i : Nat) (w w' : World) : Prop where
  before : f.world? i = some w
  after : g.world? i = some w'
  others : ∀ j, i ≠ j → g.world? j = (f.world? j).map fun v => { v with store := w'.store }

namespace Only

variable {who : Actor} {e₀ : Event}

theorem inAir_after (h : Only f g i w w') : InAir setups g key e ↔
    ((setups i).config.ownKey = key ∧ ∃ who, w'.intent? who = some (.announce e)) ∨
    ∃ j v who, i ≠ j ∧ f.world? j = some v ∧ (setups j).config.ownKey = key ∧
      v.intent? who = some (.announce e) := by
  have kept : ∀ (v : World) (store : Memory) (who : Actor),
      ({ v with store } : World).intent? who = v.intent? who := fun v store who => by
    cases who <;> rfl
  rw [inAir_iff h.after]
  refine or_congr_right ⟨?_, ?_⟩
  · rintro ⟨j, v, who, hj, hv, hkey, hx⟩
    rw [h.others j hj] at hv
    obtain ⟨u, hu, rfl⟩ := Option.map_eq_some_iff.1 hv
    exact ⟨j, u, who, hj, hu, hkey, by rwa [kept] at hx⟩
  · rintro ⟨j, v, who, hj, hv, hkey, hx⟩
    exact ⟨j, { v with store := w'.store }, who, hj, by rw [h.others j hj, hv]; rfl, hkey,
      by rwa [kept]⟩

/-- The changes of another cluster stay in the air. -/
theorem inAir_of_ne (h : Only f g i w w') (hkey : (setups i).config.ownKey ≠ key) :
    InAir setups g key e ↔ InAir setups f key e := by
  rw [h.inAir_after, inAir_iff h.before]
  simp [hkey]

/-- Nothing is in the air that the client has not made now. -/
theorem inAir_of_intents (h : Only f g i w w') (hi : ∀ who, w'.intent? who = some (.announce e) →
      w.intent? who = some (.announce e)) (he : InAir setups g key e) : InAir setups f key e := by
  rw [inAir_iff h.before]
  refine (h.inAir_after.1 he).imp_left ?_
  rintro ⟨hkey, who, hx⟩
  exact ⟨hkey, who, hi who hx⟩

/-- A change that is made now is in the air. -/
theorem inAir_wrote (h : Only f g i w w') (hkey : (setups i).config.ownKey = key)
    (hb : w.intent? who = some (.write e₀)) (ha : w'.intent? who = some (.announce e₀))
    (hi : ∀ who', who ≠ who' → w'.intent? who' = w.intent? who') :
    InAir setups g key e ↔ InAir setups f key e ∨ e = e₀ := by
  rw [h.inAir_after, inAir_iff h.before]
  constructor
  · rintro (⟨-, who', hx⟩ | hother)
    · by_cases hwho : who = who'
      · subst hwho
        rw [ha] at hx
        cases hx
        exact .inr rfl
      · exact .inl (.inl ⟨hkey, who', hi who' hwho ▸ hx⟩)
    · exact .inl (.inr hother)
  · rintro ((⟨-, who', hx⟩ | hother) | rfl)
    · have hwho : who ≠ who' := by
        rintro rfl
        rw [hb] at hx
        cases hx
      exact .inl ⟨hkey, who', (hi who' hwho).trans hx⟩
    · exact .inr hother
    · exact .inl ⟨hkey, who, ha⟩

/-- Whoever makes a change finds no other one of the address in the air. -/
theorem not_inAir_wrote (h : Only f g i w w') (alone : Alone setups g)
    (hb : w.intent? who = some (.write e₀)) (ha : w'.intent? who = some (.announce e₀))
    (hi : ∀ who', who ≠ who' → w'.intent? who' = w.intent? who')
    (hsame : e.address = e₀.address) : ¬ InAir setups f (setups i).config.ownKey e := by
  intro he
  rcases (inAir_iff h.before).1 he with ⟨-, who', hx⟩ | ⟨j, v, who', hj, hv, hkey, hx⟩
  · have hwho : who ≠ who' := by
      rintro rfl
      rw [hb] at hx
      cases hx
    exact hwho (alone i i w' w' who who' e₀ e h.after h.after rfl ha
      ((hi who' hwho).trans hx) hsame.symm).2
  · have hv' : g.world? j = some { v with store := w'.store } := by
      rw [h.others j hj, hv]
      rfl
    have hx' : ({ v with store := w'.store } : World).intent? who' = some (.announce e) := by
      cases who' <;> exact hx
    exact hj (alone i j w' _ who who' e₀ e h.after hv' hkey.symm ha hx' hsame.symm).1

/-- A change that is announced now is the only one that may have left the air. -/
theorem inAir_announced (h : Only f g i w w') (hb : w.intent? who = some (.announce e₀))
    (hi : ∀ who', who ≠ who' → w'.intent? who' = w.intent? who')
    (he : InAir setups f key e) : InAir setups g key e ∨ e = e₀ := by
  rw [h.inAir_after]
  rcases (inAir_iff h.before).1 he with ⟨hkey, who', hx⟩ | hother
  · by_cases hwho : who = who'
    · subst hwho
      rw [hb] at hx
      cases hx
      exact .inr rfl
    · exact .inl (.inl ⟨hkey, who', (hi who' hwho).trans hx⟩)
  · exact .inl (.inr hother)

end Only

end Fleet

end Muster
