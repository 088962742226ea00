import Muster.Proofs.Grammar

/-!
# What is delivered

Every stream belongs to one task of one client, and stands behind exactly those items whose
payloads the task has taken (`Streamed`). With the grammar of attempts this tells what reaches the
listeners: the payloads sent since the stream was opened, none left out and none twice, each to
every listener that was registered when it was taken.
-/
namespace Muster

/-- The payloads of an attempt are the items since its start, and its stream reads the next one. -/
structure Tapped (m : Memory) (key : String) (a : Attempt) (p : Position) : Prop where
  taken : a.payloads.map Item.payload <+: (m.log key).drop a.start
  stands : ∀ s, p.stream? = some s →
    s < m.opened ∧ m.position? key s = some (a.start + a.payloads.length)

/-- A prefix grows by the item that follows it. -/
theorem prefix_concat {α : Type} {xs l : List α} {k : Nat} {y : α} (h : xs <+: l.drop k)
    (hy : l[k + xs.length]? = some y) : xs ++ [y] <+: l.drop k := by
  obtain ⟨rest, hr⟩ := h
  have hget : (l.drop k)[xs.length]? = some y := by rw [List.getElem?_drop, hy]
  rw [← hr, List.getElem?_append_right (Nat.le_refl _), Nat.sub_self] at hget
  cases rest with
  | nil => simp at hget
  | cons z rest =>
    simp only [List.getElem?_cons_zero, Option.some.injEq] at hget
    exact ⟨rest, by rw [← hr, hget]; simp⟩

namespace Tapped

variable {m m' : Memory} {key : String} {a a' : Attempt} {p p' : Position}

/-- Streams other than that of the task may have moved. -/
theorem spared (h : Tapped m key a p) (hlog : ∀ key, m.log key <+: m'.log key)
    (hopen : m.opened ≤ m'.opened)
    (hpos : ∀ s, p.stream? = some s → m'.position? key s = m.position? key s) :
    Tapped m' key a p where
  taken := by
    obtain ⟨more, hm⟩ := hlog key
    rw [← hm, List.drop_append]
    exact h.taken.trans (List.prefix_append _ _)
  stands s hs := by
    obtain ⟨hlt, hp⟩ := h.stands s hs
    exact ⟨Nat.lt_of_lt_of_le hlt hopen, (hpos s hs).trans hp⟩

theorem calm (h : Tapped m key a p) (hm : m.Calm m') : Tapped m' key a p :=
  h.spared hm.log (Nat.le_of_eq hm.opened.symm) fun s _ => hm.position key s

theorem of_away (htaken : a.payloads.map Item.payload <+: (m.log key).drop a.start)
    (hp : p.stream? = none) : Tapped m key a p :=
  ⟨htaken, fun s hs => by rw [hp] at hs; cases hs⟩

theorem nil (ha : a.payloads = []) (hp : p.stream? = none) : Tapped m key a p :=
  of_away (by simp [ha]) hp

end Tapped

namespace Flow

variable {m m' : Memory} {key : String} {a a' : Attempt} {p p' : Position}

/-- What a step of a task does to streams that are not its own. -/
theorem others (h : Flow key a p m a' p' m') : (∀ key, m.log key <+: m'.log key) ∧
    m.opened ≤ m'.opened ∧ ∀ key s, s < m.opened → p.stream? ≠ some s →
      m'.position? key s = m.position? key s := by
  cases h with
  | calm _ _ _ hm | refused _ _ hm =>
    exact ⟨hm.log, Nat.le_of_eq hm.opened.symm, fun key s _ _ => hm.position key s⟩
  | opened _ _ _ hm =>
    obtain ⟨hs, -, hspares, -⟩ := Memory.subscribe_spares hm
    exact ⟨fun key => hspares.log key ▸ List.prefix_rfl, hspares.opened,
      fun key s' hlt _ => hspares.position key s' (by omega)⟩
  | @closed s m₁ _ _ hp _ hm hm' =>
    subst hm'
    have hspares := Memory.close_spares m₁ key s
    refine ⟨fun key => by rw [hspares.log]; exact hm.log key,
      hm.opened ▸ hspares.opened, fun key' s' _ hne => ?_⟩
    rw [hspares.position key' s' (fun e => hne (e ▸ hp)), hm.position]
  | @took s x m₁ _ _ hp hm hp' =>
    have hnext := Memory.next_spares hm
    have hspares : m.Spares s m' := by
      rcases hp' with ⟨-, rfl⟩ | ⟨-, rfl⟩
      · exact hnext
      · exact hnext.trans (Memory.close_spares m₁ key s)
    exact ⟨fun key => hspares.log key ▸ List.prefix_rfl, hspares.opened,
      fun key' s' _ hne => hspares.position key' s' fun e => hne (e ▸ hp)⟩
  | @lost s r m₁ _ _ hp _ hm hm' =>
    subst hm'
    have hspares := (Memory.next_spares hm).trans (Memory.close_spares m₁ key s)
    exact ⟨fun key => hspares.log key ▸ List.prefix_rfl, hspares.opened,
      fun key' s' _ hne => hspares.position key' s' fun e => hne (e ▸ hp)⟩

/-- A stream that a task has after a step is the one it had, or a new one. -/
theorem stream (h : Flow key a p m a' p' m') {s : Nat} (hs : p'.stream? = some s) :
    p.stream? = some s ∨ s = m.opened ∧ m'.opened = m.opened + 1 := by
  cases h with
  | calm _ _ hp => exact .inl (hp ▸ hs)
  | refused _ hp => simp [hp] at hs
  | opened _ _ hp hm =>
    rw [hp] at hs
    cases hs
    obtain ⟨hs, hopen, -⟩ := Memory.subscribe_spares hm
    exact .inr ⟨hs, hopen⟩
  | closed _ _ _ hp' => simp [hp'] at hs
  | took _ _ hp _ hp' =>
    rcases hp' with ⟨hp', -⟩ | ⟨hp', -⟩
    · rw [hp'] at hs
      exact .inl (hs ▸ hp)
    · simp [hp'] at hs
  | lost _ _ _ hp' => simp [hp'] at hs

/-- A step keeps the task behind the items that it has taken. -/
theorem tapped (h : Flow key a p m a' p' m') (ht : Tapped m key a p)
    (hfresh : ∀ s, m.opened ≤ s → m.position? key s = none) : Tapped m' key a' p' := by
  cases h with
  | calm hstart hpay hp hm =>
    have ht' := ht.calm hm
    exact ⟨by rw [hstart, hpay]; exact ht'.taken, by rw [hp, hstart, hpay]; exact ht'.stands⟩
  | refused hpay hp => exact .nil hpay hp
  | opened hstart hpay hp hm =>
    obtain ⟨rfl, hopen, hspares, hnew⟩ := Memory.subscribe_spares hm
    refine ⟨by simp [hpay], fun s hs => ?_⟩
    rw [hp] at hs
    cases hs
    rw [hopen, hnew (hfresh _ (Nat.le_refl _)), hstart, hpay]
    exact ⟨Nat.lt_succ_self _, rfl⟩
  | @closed s m₁ hstart hpay _ hp' hm hm' =>
    subst hm'
    refine .of_away ?_ hp'
    rw [hstart, hpay, (Memory.close_spares m₁ key s).log]
    exact (ht.calm hm).taken
  | @took s x m₁ hstart hpay hp hm hp' =>
    obtain ⟨hitem, hpos⟩ := Memory.next_message hm (ht.stands s hp).2
    have htaken : a'.payloads.map Item.payload <+: (m.log key).drop a'.start := by
      rw [hstart, hpay, List.map_append]
      exact prefix_concat ht.taken (by simpa using hitem)
    have hnext := Memory.next_spares hm
    rcases hp' with ⟨hp', rfl⟩ | ⟨hp', rfl⟩
    · refine ⟨by rw [hnext.log]; exact htaken, fun s' hs' => ?_⟩
      rw [hp'] at hs'
      cases hs'
      refine ⟨Nat.lt_of_lt_of_le (ht.stands s hp).1 hnext.opened, ?_⟩
      rw [hpos, hstart, hpay]
      simp [Nat.add_assoc]
    · refine .of_away ?_ hp'
      rw [(Memory.close_spares m₁ key s).log, hnext.log]
      exact htaken
  | @lost s r m₁ hstart hpay _ hp' hm hm' =>
    subst hm'
    refine .of_away ?_ hp'
    rw [hstart, hpay, (Memory.close_spares m₁ key s).log, (Memory.next_spares hm).log]
    exact ht.taken

/-- Numbers that were not given to a stream yet stay free. -/
theorem fresh (h : Flow key a p m a' p' m') (hown : ∀ s, p.stream? = some s → s < m.opened)
    (hfresh : ∀ key s, m.opened ≤ s → m.position? key s = none) (key' : String) (s : Nat)
    (hs : m'.opened ≤ s) : m'.position? key' s = none := by
  cases h with
  | calm _ _ _ hm | refused _ _ hm =>
    rw [hm.position]
    exact hfresh key' s (hm.opened ▸ hs)
  | opened _ _ _ hm =>
    obtain ⟨rfl, hopen, hspares, -⟩ := Memory.subscribe_spares hm
    rw [hspares.position key' s (by omega)]
    exact hfresh key' s (by omega)
  | @closed s₀ m₁ _ _ hp _ hm hm' =>
    subst hm'
    have hspares := Memory.close_spares m₁ key s₀
    have hlt := hown s₀ hp
    have hle := hspares.opened
    have hopen := hm.opened
    rw [hspares.position key' s (by omega), hm.position]
    exact hfresh key' s (by omega)
  | @took s₀ x m₁ _ _ hp hm hp' =>
    have hspares : m.Spares s₀ m' := by
      rcases hp' with ⟨-, rfl⟩ | ⟨-, rfl⟩
      · exact Memory.next_spares hm
      · exact (Memory.next_spares hm).trans (Memory.close_spares m₁ key s₀)
    have hlt := hown s₀ hp
    have hle := hspares.opened
    rw [hspares.position key' s (by omega)]
    exact hfresh key' s (by omega)
  | @lost s₀ r m₁ _ _ hp _ hm hm' =>
    subst hm'
    have hspares := (Memory.next_spares hm).trans (Memory.close_spares m₁ key s₀)
    have hlt := hown s₀ hp
    have hle := hspares.opened
    rw [hspares.position key' s (by omega)]
    exact hfresh key' s (by omega)

end Flow

namespace World

/-- After somebody else's step a task is as it was, or it is new. -/
theorem Recorded.kept {setup : Setup} {w w' : World} {id : Nat} {t' : Task}
    (h : Recorded setup w) (e : Elsewhere id w w') (ht' : w'.tasks[id]? = some t') :
    (∃ t, w.tasks[id]? = some t ∧ t'.cluster = t.cluster ∧ t'.position = t.position ∧
      attempt setup t.cluster id w'.trace = attempt setup t.cluster id w.trace) ∨
    (t'.position = .opening .arriving ∧ attempt setup t'.cluster id w'.trace = {}) := by
  obtain ⟨ms, hm, hms⟩ := e.trace
  cases ht : w.tasks[id]? with
  | none =>
    refine .inr ⟨e.fresh ht t' ht', ?_⟩
    rw [hm, (attempt_append hms).1]
    exact (attempt_unmarked (h.unmarked id ht)).1
  | some t =>
    obtain ⟨u, hu, hc, hp, -⟩ := e.task t ht
    rw [hu] at ht'
    cases ht'
    exact .inl ⟨t, rfl, hc, hp, by rw [hm, (attempt_append hms).1]⟩

end World

namespace Fleet

variable {setups : Nat → Setup} {f g : Fleet} {i : Nat} {m : Move}

/-- What is told of a task of a client. -/
def attemptOf (setups : Nat → Setup) (i id : Nat) (t : Task) (w : World) : Attempt :=
  attempt (setups i) t.cluster id w.trace

/-- Every stream of the store belongs to one task, and stands behind what that task has taken. -/
structure Streamed (setups : Nat → Setup) (f : Fleet) : Prop where
  supervised : ∀ {i w}, f.world? i = some w → w.Supervised
  recorded : ∀ {i w}, f.world? i = some w → w.Recorded (setups i)
  fresh : ∀ key s, f.store.opened ≤ s → f.store.position? key s = none
  tapped : ∀ {i w id t}, f.world? i = some w → w.tasks[id]? = some t →
    Tapped f.store (registryKey t.cluster) (attemptOf setups i id t w) t.position
  apart : ∀ {i j : Nat} {v w : World} {id id' : Nat} {t t' : Task} {s : Nat},
    f.world? i = some v → f.world? j = some w → v.tasks[id]? = some t → w.tasks[id']? = some t' →
    t.position.stream? = some s → t'.position.stream? = some s → i = j ∧ id = id'

namespace Streamed

theorem start (store : Memory) (n : Nat) (hs : store.channels.entries = []) :
    Streamed setups (start store n) where
  supervised hw := world?_start hw ▸ .start store
  recorded hw := world?_start hw ▸ .start store
  fresh key s _ := by
    have hnone : store.channels.get? key = none := by simp [Table.get?, hs, Table.find?]
    simp [Fleet.start, Memory.position?, hnone]
  tapped hw ht := by
    rw [world?_start hw] at ht
    simp at ht
  apart hw _ ht := by
    rw [world?_start hw] at ht
    simp at ht

/-- A task after a move of one client: it took the step, or it is as it was, or it is new. -/
theorem kept (h : Streamed setups f) {w w' : World} (hw : f.world? i = some w)
    (hi : g.world? i = some w') (hothers : ∀ j, i ≠ j → g.world? j =
      (f.world? j).map fun v => { v with store := w'.store })
    {j id : Nat} {v' : World} {t' : Task} (hv' : g.world? j = some v')
    (ht' : v'.tasks[id]? = some t') (e : i = j → World.Elsewhere id w w') :
    (∃ v t, f.world? j = some v ∧ v.tasks[id]? = some t ∧ t'.cluster = t.cluster ∧
      t'.position = t.position ∧ attemptOf setups j id t' v' = attemptOf setups j id t v) ∨
    (t'.position = .opening .arriving ∧ attemptOf setups j id t' v' = {}) := by
  by_cases hj : i = j
  · subst hj
    rw [hi] at hv'
    cases hv'
    rcases (h.recorded hw).kept (e rfl) ht' with ⟨t, ht, hc, hp, ha⟩ | hnew
    · exact .inl ⟨w, t, hw, ht, hc, hp, by rw [attemptOf, hc]; exact ha⟩
    · exact .inr hnew
  · rw [hothers j hj] at hv'
    obtain ⟨v, hv, rfl⟩ := Option.map_eq_some_iff.1 hv'
    exact .inl ⟨v, t', hv, ht', rfl, rfl, rfl⟩

theorem move (h : Streamed setups f) (next : f.move setups i m = some g) :
    Streamed setups g := by
  obtain ⟨w, w', hw, hm, hg, hi, hothers⟩ := move_cases next
  obtain ⟨hrec, hshift⟩ := (h.recorded hw).move (h.supervised hw) hm
  have hf := store_of_world? hw
  have hsup : ∀ {j v}, g.world? j = some v → v.Supervised ∧ v.Recorded (setups j) := by
    intro j v hv
    by_cases hj : i = j
    · subst hj
      rw [hi] at hv
      cases hv
      exact ⟨(h.supervised hw).move hm, hrec⟩
    · rw [hothers j hj] at hv
      obtain ⟨u, hu, rfl⟩ := Option.map_eq_some_iff.1 hv
      exact ⟨(h.supervised hu).rests (.quiet rfl rfl rfl rfl rfl), (h.recorded hu).store _⟩
  cases hshift with
  | others e hcalm =>
    rw [hf, ← hg] at hcalm
    have kept := fun {j id v' t'} (hv : g.world? j = some v') (ht : v'.tasks[id]? = some t') =>
      h.kept hw hi hothers hv ht fun _ => e id
    refine ⟨fun hv => (hsup hv).1, fun hv => (hsup hv).2, fun key s hs => ?_,
      fun {j v' id t'} hv ht => ?_, fun {j k v' u' id id' t' r' s} hv hu ht hr hst hsr => ?_⟩
    · rw [hcalm.position]
      exact h.fresh key s (hcalm.opened ▸ hs)
    · rcases kept hv ht with ⟨v, t, hv, ht, hc, hp, ha⟩ | ⟨hp, ha⟩
      · rw [hc, hp, ha]
        exact (h.tapped hv ht).calm hcalm
      · rw [hp, ha]
        exact .nil rfl rfl
    · rcases kept hv ht with ⟨v, t, hv, ht, -, hp, -⟩ | ⟨hp, -⟩
      · rcases kept hu hr with ⟨u, r, hu, hr, -, hp', -⟩ | ⟨hp', -⟩
        · exact h.apart hv hu ht hr (hp ▸ hst) (hp' ▸ hsr)
        · rw [hp'] at hsr
          cases hsr
      · rw [hp] at hst
        cases hst
  | @own id₀ t₀ t₁ ht₀ ht₁ hc₀ e flow =>
    rw [hf, ← hg] at flow
    have hown := h.tapped hw ht₀
    obtain ⟨hlog, hopen, hpos⟩ := flow.others
    have kept := fun {j id v' t'} (hv : g.world? j = some v') (ht : v'.tasks[id]? = some t')
        (hne : ¬(i = j ∧ id₀ = id)) =>
      h.kept hw hi hothers hv ht fun hj => e id fun hid => hne ⟨hj, hid⟩
    -- The task that moved, as it is now.
    have moved : ∀ {v' t'}, g.world? i = some v' → v'.tasks[id₀]? = some t' → v' = w' ∧ t' = t₁ := by
      intro v' t' hv ht
      rw [hi] at hv
      cases hv
      rw [ht₁] at ht
      cases ht
      exact ⟨rfl, rfl⟩
    -- Nobody else has the stream of the task that moved.
    have foreign : ∀ {j id v t s}, f.world? j = some v → v.tasks[id]? = some t →
        ¬(i = j ∧ id₀ = id) → t.position.stream? = some s → t₁.position.stream? ≠ some s := by
      intro j id v t s hv ht hne hs hs₁
      rcases flow.stream hs₁ with hs₀ | ⟨hs₀, -⟩
      · exact hne (h.apart hw hv ht₀ ht hs₀ hs)
      · have hlt := ((h.tapped hv ht).stands s hs).1
        omega
    refine ⟨fun hv => (hsup hv).1, fun hv => (hsup hv).2,
      flow.fresh (fun s hs => (hown.stands s hs).1) h.fresh, fun {j v' id t'} hv ht => ?_,
      fun {j k v' u' id id' t' r' s} hv hu ht hr hst hsr => ?_⟩
    · by_cases hne : i = j ∧ id₀ = id
      · obtain ⟨rfl, rfl⟩ := hne
        obtain ⟨rfl, rfl⟩ := moved hv ht
        rw [attemptOf, hc₀]
        exact flow.tapped hown fun s hs => h.fresh _ s hs
      · rcases kept hv ht hne with ⟨v, t, hv, ht, hc, hp, ha⟩ | ⟨hp, ha⟩
        · rw [hc, hp, ha]
          refine (h.tapped hv ht).spared hlog hopen fun s hs => ?_
          exact hpos _ s ((h.tapped hv ht).stands s hs).1 fun hs₀ =>
            hne (h.apart hw hv ht₀ ht hs₀ hs)
        · rw [hp, ha]
          exact .nil rfl rfl
    · by_cases hne : i = j ∧ id₀ = id
      · obtain ⟨rfl, rfl⟩ := hne
        obtain ⟨rfl, rfl⟩ := moved hv ht
        by_cases hne' : i = k ∧ id₀ = id'
        · exact hne'
        · rcases kept hu hr hne' with ⟨u, r, hu, hr, -, hp', -⟩ | ⟨hp', -⟩
          · exact absurd hst (foreign hu hr hne' (hp' ▸ hsr))
          · rw [hp'] at hsr
            cases hsr
      · rcases kept hv ht hne with ⟨v, t, hv, ht, -, hp, -⟩ | ⟨hp, -⟩
        · by_cases hne' : i = k ∧ id₀ = id'
          · obtain ⟨rfl, rfl⟩ := hne'
            obtain ⟨rfl, rfl⟩ := moved hu hr
            exact absurd hsr (foreign hv ht hne (hp ▸ hst))
          · rcases kept hu hr hne' with ⟨u, r, hu, hr, -, hp', -⟩ | ⟨hp', -⟩
            · exact h.apart hv hu ht hr (hp ▸ hst) (hp' ▸ hsr)
            · rw [hp'] at hsr
              cases hsr
        · rw [hp] at hst
          cases hst

theorem of_reachable (hf : Reachable setups f) : Streamed setups f := by
  obtain ⟨store, n, hs, hr⟩ := hf
  induction hr with
  | refl => exact start store n hs
  | move _ next ih => exact ih.move next

end Streamed

end Fleet

namespace Fleet

variable {setups : Nat → Setup} {f : Fleet} {i id : Nat} {w : World} {t : Task}

/-- What a task does in an attempt, in every state that a client can reach. The record tells who is
registered and who is queued; every mark of the task was made when it was lawful; its calls follow
the agenda; the messages on the agenda are those of the payloads taken; the payloads taken are the
next items of the channel since the stream was opened, which reads on right behind them; an attempt
is cut short only by a listener's answer, by the stream or by a cancellation; and a payload that is
no message ends the task. -/
theorem attempt_trace (hf : Reachable setups f) (hw : f.world? i = some w)
    (ht : w.tasks[id]? = some t) :
    (∀ c, registered c w.trace = w.listeners.of c ∧ queued c w.trace = w.listeners.pending c) ∧
    (∀ m past, m :: past <:+ w.trace → Lawful (setups i) t.cluster id past m) ∧
    (attemptOf setups i id t w).calls <+: (attemptOf setups i id t w).agenda ∧
    (attemptOf setups i id t w).messages =
      (attemptOf setups i id t w).payloads.filterMap (setups i).message? ∧
    (attemptOf setups i id t w).payloads.map Item.payload <+:
      (w.store.log (registryKey t.cluster)).drop (attemptOf setups i id t w).start ∧
    (∀ s, t.position.stream? = some s → w.store.position? (registryKey t.cluster) s =
      some ((attemptOf setups i id t w).start + (attemptOf setups i id t w).payloads.length)) ∧
    (t.isEnded = true → (attemptOf setups i id t w).phase = .over ∨ t.cancelled = true) ∧
    ((attemptOf setups i id t w).Garbled (setups i) → t.isEnded = true) := by
  have h := Streamed.of_reachable hf
  have hlaws := (h.recorded hw).laws id t ht
  have hfits := (h.recorded hw).fits id t ht
  have hbooked := (h.recorded hw).booked
  refine ⟨fun c => ⟨(hbooked.of c).symm, (hbooked.pending c).symm⟩,
    fun m past hs => hlaws.of_suffix hs, calls_due hlaws, hfits.messages, ?_, ?_,
    fun hend => hfits.ended (Task.isEnded_iff.1 hend),
    fun hg => Task.isEnded_iff.2 (hfits.garbled hg)⟩
  · rw [store_of_world? hw]
    exact (h.tapped hw ht).taken
  · rw [store_of_world? hw]
    exact fun s hs => ((h.tapped hw ht).stands s hs).2

/-- A listener is synchronised, takes one message and is called with it. -/
theorem attempt_trace_delivery : ∃ f w t, Reachable (fun _ => .plain "me@here") f ∧
    f.world? 0 = some w ∧ w.tasks[0]? = some t ∧
    (attemptOf (fun _ => .plain "me@here") 0 0 t w).calls =
      [(.user "l", .sync), (.user "l", .event "10.0.0.1:8091-REGISTER")] ∧
    (attemptOf (fun _ => .plain "me@here") 0 0 t w).calls <+:
      (attemptOf (fun _ => .plain "me@here") 0 0 t w).agenda ∧
    [Item.payload "10.0.0.1:8091-REGISTER"] <+: (w.store.log "registry.redis.c").drop 0 := by
  obtain ⟨f, w, hf, hw, hp⟩ := exists_of_run (fun _ => .plain "me@here") .usual 1 0
    ([(0, .ask 0 (.attach "c" "l")), (0, .step (.task 0)),
      (0, .ask 0 (.send "registry.redis.c" ["10.0.0.1:8091-REGISTER"]))] ++
      List.replicate 6 (0, .step (.task 0)))
    (fun w => (w.tasks[0]?).any fun t => t.cluster == "c" &&
      (attemptOf (fun _ => .plain "me@here") 0 0 t w).payloads == ["10.0.0.1:8091-REGISTER"] &&
      (attemptOf (fun _ => .plain "me@here") 0 0 t w).start == 0 &&
      (attemptOf (fun _ => .plain "me@here") 0 0 t w).calls ==
        [(.user "l", .sync), (.user "l", .event "10.0.0.1:8091-REGISTER")]) rfl (by decide +kernel)
  obtain ⟨t, ht, hp⟩ := (Option.any_eq_true _ _).1 hp
  simp only [Bool.and_eq_true, beq_iff_eq] at hp
  obtain ⟨⟨⟨hc, hpay⟩, hstart⟩, hcalls⟩ := hp
  obtain ⟨-, -, hprefix, -, htaken, -⟩ := attempt_trace hf hw ht
  rw [hpay, hstart, hc] at htaken
  exact ⟨f, w, t, hf, hw, ht, hcalls, hprefix, htaken⟩

end Fleet

end Muster
