import Muster.Proofs.Orderly

/-!
# What orderly writers tell

In an orderly run every change of a hash is followed by its announcement on the cluster's channel,
and no other change of the same address comes between. So the hash and the last event about an
address agree whenever no change of it is in the air (`Told`).
-/
namespace Muster

namespace Fleet

variable {setups : Nat → Setup} {f g : Fleet} {i : Nat} {m : Move}

/-- What the store tells of a cluster is right, but for changes in the air. -/
structure Told (setups : Nat → Setup) (f : Fleet) : Prop where
  canonical : f.store.Canonical
  tells : ∀ key, f.store.Tells key (InAir setups f key)

namespace Told

theorem start {store : Memory} {n : Nat} (hs : store.channels.entries = [])
    (hc : store.Canonical) : Told setups (start store n) where
  canonical := hc
  tells key := by
    refine ⟨fun e he => ?_, fun a e _ he => ?_⟩
    · obtain ⟨i, w, who, hw, -, hx⟩ := he
      rw [world?_start hw] at hx
      cases who <;> simp [World.intent?] at hx
    · have hnone : store.channels.get? key = none := by simp [Table.get?, hs, Table.find?]
      simp [Fleet.start, Memory.eventsFrom, Memory.log, hnone, lastEvent?] at he

/-- Each orderly move is one of the steps of the store. -/
theorem airing (h : Told setups f) (hf : Reachable setups f) (next : f.move setups i m = some g)
    (careful : Careful setups i m f g) (alone : Alone setups g) (key : String) :
    Memory.Airing key (InAir setups f key) (InAir setups g key) f.store g.store := by
  obtain ⟨w, w', hw, hm, hg, hi, hothers⟩ := move_cases next
  have hstore := store_of_world? hw
  have honly : Only f g i w w' := ⟨hw, hi, hothers⟩
  have hsup := World.Supervised.of_reachable hf hw
  obtain ⟨hkept, hproper⟩ := kept_of_reachable hf hw
  cases (World.move_happens hsup hproper hm).airs hsup (careful.inside w hw) with
  | still hs hintents =>
    rw [hstore, ← hg] at hs
    have hsub : ∀ e, InAir setups g key e → InAir setups f key e := fun e =>
      honly.inAir_of_intents fun who => hintents who e
    by_cases hall : ∀ e, InAir setups f key e → InAir setups g key e
    · exact .rests (fun a => hs.lists) (fun n hn => hs.eventsFrom key hn)
        fun e => ⟨hsub e, hall e⟩
    · -- An announcement that nobody hears, so that nothing was sent.
      obtain ⟨e, he⟩ := Classical.not_forall.1 hall
      obtain ⟨hin, hout⟩ := Classical.not_imp.1 he
      have hann : Memory.Announced key e f.store g.store := by
        rcases (inAir_iff hw).1 hin with ⟨hkey, who, hx⟩ | hother
        · rcases careful.heard w w' who e hw hi hx with hx' | hann
          · exact absurd (honly.inAir_after.2 (.inl ⟨hkey, who, hx'⟩)) hout
          · exact hkey ▸ hann
        · exact absurd (honly.inAir_after.2 (.inr hother)) hout
      cases hc : f.store.channels.get? key with
      | none => exact .unheard (fun a => hs.lists) hc (hann.log_none hc) hsub
      | some c =>
        obtain ⟨n, hn⟩ := hs.log key
        have hsent := hann.log_self (by rw [hc]; rfl)
        rw [hn] at hsent
        cases n with
        | zero => simp at hsent
        | succ n => simp [List.replicate_succ] at hsent
  | @wrote who e₀ hb ha hintents hs =>
    rw [hstore, ← hg] at hs
    have hplain := hkept.plain who e₀ (.inl hb)
    by_cases hkey : (setups i).config.ownKey = key
    · subst hkey
      exact .wrote (hs.lists_self hplain h.canonical)
        (fun a hne => hs.lists_other hplain fun _ => hne) (hs.log _)
        (fun e => honly.inAir_wrote rfl hb ha hintents)
        fun e he hsame => honly.not_inAir_wrote alone hb ha hintents hsame he
    · exact .rests (fun a => hs.lists_other hplain fun heq => absurd heq hkey)
        (fun n _ => Memory.eventsFrom_of_log (hs.log key) n) fun e => honly.inAir_of_ne hkey
  | @announced who e₀ hb ha hintents hs =>
    rw [hstore, ← hg] at hs
    have hplain := hkept.plain who e₀ (.inr hb)
    have hlist : ∀ a, g.store.Lists key a ↔ f.store.Lists key a := fun a => by
      rw [Memory.Lists, Memory.Lists, hs.hash]
    by_cases hkey : (setups i).config.ownKey = key
    · subst hkey
      have hsub : ∀ e, InAir setups g (setups i).config.ownKey e →
          InAir setups f (setups i).config.ownKey e := by
        refine fun e => honly.inAir_of_intents fun who' hx => ?_
        by_cases hwho : who = who'
        · subst hwho
          rw [ha] at hx
          cases hx
        · exact hintents who' hwho ▸ hx
      cases hc : f.store.channels.get? (setups i).config.ownKey with
      | none => exact .unheard hlist hc (hs.log_none hc) hsub
      | some c =>
        exact .announced (Item.event?_encode hplain) ((inAir_iff hw).2 (.inl ⟨rfl, who, hb⟩))
          hlist (hs.log_self (by rw [hc]; rfl)) hsub fun e => honly.inAir_announced hb hintents
    · exact .rests hlist (fun n _ => Memory.eventsFrom_of_log (hs.log_other hkey) n) fun e =>
        honly.inAir_of_ne hkey

theorem move (h : Told setups f) (hf : Reachable setups f) (next : f.move setups i m = some g)
    (careful : Careful setups i m f g) (alone : Alone setups g) : Told setups g := by
  refine ⟨?_, fun key => (h.tells key).airing (h.airing hf next careful alone key)⟩
  obtain ⟨w, w', hw, hm, hg, -, -⟩ := move_cases next
  have hstore := store_of_world? hw
  have hsup := World.Supervised.of_reachable hf hw
  obtain ⟨hkept, hproper⟩ := kept_of_reachable hf hw
  cases (World.move_happens hsup hproper hm).airs hsup (careful.inside w hw) with
  | still hs =>
    rw [hstore, ← hg] at hs
    intro key field a hfield hread
    exact h.canonical key field a (hs.hash key ▸ hfield) hread
  | wrote hb _ _ hs =>
    rw [hstore, ← hg] at hs
    exact hs.canonical (hkept.plain _ _ (.inl hb)) h.canonical
  | announced _ _ _ hs =>
    rw [hstore, ← hg] at hs
    intro key field a hfield hread
    exact h.canonical key field a (hs.hash key ▸ hfield) hread

/-- The store of an orderly run from clean beginnings tells what is right. -/
theorem of_orderly {store : Memory} {n : Nat} (hs : store.channels.entries = [])
    (hc : store.Canonical) (h : Orderly setups (Fleet.start store n) f) : Told setups f := by
  induction h with
  | refl => exact start hs hc
  | move past next allowed ih =>
    exact ih.move ⟨store, n, hs, past.reaches⟩ next allowed.1 allowed.2

end Told

end Fleet

end Muster
