import Mathlib.Data.List.Perm.Subperm
import Muster.Proofs.Delivery
import Muster.Proofs.Messages

/-!
# One updater for a cluster

As long as nobody gives up a load between attaching the updater and the outcome of the first
attempt, a cluster gets one updater and is loaded once (`Enrolled`). Then every message that a task
passes on is applied at most once, so that no more events are applied than were received
(`Metered`).
-/
namespace Muster

/-- The cache was refilled, and the first attempt is not over yet. -/
def Intent.isStart : Intent → Bool
  | .start _ => true
  | _ => false

/-- An updater is attached to the cluster. -/
def Mark.enlists (c : String) : Mark → Bool
  | .attached c' l _ => c' == c && l.isUpdater
  | _ => false

/-- How many updaters were attached to a cluster. -/
def enlisted (c : String) (trace : List Mark) : Nat := trace.countP (Mark.enlists c)

theorem enlisted_filter (c : String) (trace : List Mark) :
    enlisted c (trace.filter Mark.tells) = enlisted c trace := by
  unfold enlisted
  rw [List.countP_filter]
  refine List.countP_congr fun m _ => ?_
  cases m <;> simp [Mark.enlists, Mark.tells]

/-- Updaters that are registered were attached. -/
theorem countP_registered (c : String) (trace : List Mark) :
    (registered c trace).countP Listener.isUpdater ≤ enlisted c trace := by
  induction trace with
  | nil => exact Nat.le_refl _
  | cons m past ih =>
    have hcons : enlisted c (m :: past) = enlisted c past + if m.enlists c then 1 else 0 :=
      List.countP_cons
    rw [hcons]
    cases m with
    | attached c' l joined =>
      simp only [registered, Mark.enlists]
      by_cases hc : c' = c
      · rw [if_pos hc, List.countP_append, List.countP_singleton]
        simp only [hc, beq_self_eq_true, Bool.true_and]
        omega
      · rw [if_neg hc]
        exact Nat.le_trans ih (Nat.le_add_right _ _)
    | detached c' l =>
      simp only [registered]
      split
      · exact Nat.le_trans List.erase_sublist.countP_le (Nat.le_trans ih (Nat.le_add_right _ _))
      · exact Nat.le_trans ih (Nat.le_add_right _ _)
    | _ => exact Nat.le_trans ih (Nat.le_add_right _ _)

namespace World

variable {setup : Setup} {w v w' : World} {m : Move} {c : String} {who : Actor} {loose : Prop}
  {after : Option Intent} {id : Nat} {t : Task}

/-- The cluster is loaded, or whoever filled its cache waits for the first attempt. -/
def Seated (w : World) (c : String) : Prop :=
  w.cell c = .loaded ∨ ∃ who, w.intent? who = some (.start c)

/-- Nobody fills the cache of a cluster that has its updater. -/
theorem Seated.not_fill (h : w.Seated c) (hk : Kept w) : w.intent? who ≠ some (.fill c) := by
  intro hfill
  have howner := hk.owner who _ c hfill rfl
  rcases h with hl | ⟨who', hstart⟩
  · exact Cell.not_loaded_of_owner howner hl
  · have hwho := howner.symm.trans (hk.owner who' _ c hstart rfl)
    cases hwho
    rw [hfill] at hstart
    cases hstart

/-- A deed keeps its own part. -/
theorem Deed.seated (d : Deed setup loose who w (w.intent? who) v after) (hs : Supervised w)
    (hk : Kept w) (h : w.Seated c) : v.cell c = .loaded ∨ after = some (.start c) ∨
      ∃ who', who ≠ who' ∧ w.intent? who' = some (.start c) := by
  have kept : ∀ {load : Load} {x : Intent}, w.intent? who = some x → x.load? = some load.cluster →
      w.cell c = .loaded → load.cluster ≠ c := by
    rintro load x hx hl hloaded rfl
    exact Cell.not_loaded_of_owner (hk.owner who x _ hx hl) hloaded
  rcases h with hl | ⟨who', hstart⟩
  · left
    cases d with
    | light _ _ _ hc =>
      rcases hc c with hc | hc | ⟨-, -, hc⟩ <;> rw [hc, hl] <;> rfl
    | wrote _ _ hc => rw [hc, hl]
    | announced _ _ hc => rw [hc, hl]
    | refilled hb => rw [takeSnapshot_cell hs (kept hb rfl hl), hl]
    | started hb => rw [awaitStart_cell (kept hb rfl hl), hl]
  · by_cases hwho : who = who'
    · subst hwho
      generalize hb : w.intent? who = before at d
      rw [hstart] at hb
      cases d with
      | light _ _ hno => exact absurd hb.symm (hno c)
      | wrote _ h => rw [← hb] at h; cases h
      | announced _ h => rw [← hb] at h; cases h
      | refilled h => rw [← hb] at h; cases h
      | @started load h =>
        rw [← hb] at h
        cases h
        rcases awaitStart_cases w load with heq | ⟨seen, heq⟩ <;> rw [heq]
        · exact .inl ((cell_updateCell w _ _ _).trans (if_pos rfl))
        · exact .inr (.inl rfl)
    · exact .inr (.inr ⟨who', hwho, hstart⟩)

/-- A cluster keeps its place unless the load is given up hastily. -/
theorem Seated.happens (h : w.Seated c) (hh : Happens setup w m w') (hs : Supervised w)
    (hk : Kept w) (hcalm : ¬ w.Hasty m) : w'.Seated c := by
  have left : ∀ {who : Actor}, w.dropped? m = some who →
      (∀ who', who ≠ who' → w'.intent? who' = w.intent? who') →
      (w'.cell c = w.cell c ∨ w'.cell c = (w.cell c).leave who) → w'.Seated c := by
    intro who hd hi hcell
    rcases h with hl | ⟨who', hstart⟩
    · left
      rcases hcell with hcell | hcell <;> rw [hcell, hl]
      rfl
    · have hwho : who ≠ who' := by
        rintro rfl
        exact hcalm ⟨who, c, hd, hstart⟩
      exact .inr ⟨who', (hi who' hwho).trans hstart⟩
  cases hh with
  | @acted who trace v after hq d hset =>
    have hs' : Supervised { w with trace } := hs.rests (.quiet rfl rfl rfl rfl rfl)
    have hk' : Kept { w with trace } := hk.same rfl rfl fun _ => rfl
    have h' : ({ w with trace } : World).Seated c := h
    rcases Deed.seated (w := { w with trace }) d hs' hk' h' with hl | hstart | ⟨who', hne, hstart⟩
    · exact .inl (by rw [cell, hset.caches]; exact hl)
    · exact .inr ⟨who, hset.mine.trans hstart⟩
    · refine .inr ⟨who', (hset.others who' hne).trans ?_⟩
      exact (d.edits.intents (Deed.calls (w := { w with trace }) d hs') who').trans hstart
  | rested _ hi hc =>
    rcases h with hl | ⟨who, hstart⟩
    · exact .inl ((hc c).trans hl)
    · exact .inr ⟨who, (hi who).trans hstart⟩
  | dropped hd _ _ hi hc => exact left hd hi (hc c)
  | @stopped id v hd hv hl =>
    obtain ⟨-, hi⟩ := hl.intents
    refine left hd (fun who' hne => (hi who' hne).trans ?_) (by
      rw [hl.1.cell]
      exact cell_of_left hv c)
    rcases hv with rfl | ⟨k, rfl⟩
    · rfl
    · exact intent?_congr rfl rfl who'
  | strode _ ht _ hstride =>
    rcases h with hl | ⟨who, hstart⟩
    · exact .inl ((hstride.cell c).trans hl)
    · exact .inr ⟨who, (hstride.intents ht who).trans hstart⟩

/-! ## Who attaches updaters -/

theorem Silent.enlisted (h : Silent w v) (c : String) :
    enlisted c v.trace = enlisted c w.trace := by
  rw [← enlisted_filter, show v.trace.filter Mark.tells = w.trace.filter Mark.tells from h,
    enlisted_filter]

/-- Only whoever filled the cache attaches an updater. -/
theorem Deed.enlisted (d : Deed setup loose who w (w.intent? who) v after) (hs : Supervised w) :
    (∀ c, enlisted c v.trace = enlisted c w.trace) ∨
    ∃ c₀, w.intent? who = some (.fill c₀) ∧
      (∀ c, enlisted c v.trace = enlisted c w.trace + if c₀ = c then 1 else 0) ∧
      (v.cell c₀ = .loaded ∨ after = some (.start c₀)) := by
  cases d with
  | light h => exact .inl h.silent.enlisted
  | wrote h => exact .inl h.silent.enlisted
  | announced h => exact .inl h.silent.enlisted
  | @refilled load fields hb =>
    obtain ⟨u, -, -, -, -, -, ⟨f, -, hsilent, heq⟩ | ⟨-, -, -, ⟨l, joined, hl, hmark⟩, heq⟩⟩ :=
      takeSnapshot_cases setup hs load fields
    · rw [heq]
      exact .inl (Silent.enlisted hsilent)
    · refine .inr ⟨load.cluster, hb, fun c => ?_, ?_⟩
      · have hafter : Silent u (u.awaitStart load).1 := .aside (awaitStart_aside u load)
        rw [heq, hafter.enlisted, ← enlisted_filter, hmark]
        show List.countP _ (_ :: _) = _
        rw [List.countP_cons]
        show Muster.enlisted c (w.trace.filter Mark.tells) + _ = _
        rw [enlisted_filter]
        simp [Mark.enlists, hl]
      · rw [heq]
        rcases awaitStart_cases u load with heq | ⟨seen, heq⟩ <;> rw [heq]
        · exact .inl ((cell_updateCell u _ _ _).trans (if_pos rfl))
        · exact .inr rfl
  | started => exact .inl (Silent.aside (awaitStart_aside w _)).enlisted

/-- Every cluster got at most one updater, and has its place if it got one. -/
def Enrolled (w : World) : Prop :=
  ∀ c, enlisted c w.trace ≤ 1 ∧ (enlisted c w.trace ≠ 0 → w.Seated c)

theorem Enrolled.happens (h : Enrolled w) (hh : Happens setup w m w') (hs : Supervised w)
    (hk : Kept w) (hcalm : ¬ w.Hasty m) : Enrolled w' := by
  have quiet : (∀ c, enlisted c w'.trace = enlisted c w.trace) → Enrolled w' := fun heq c => by
    rw [heq]
    exact ⟨(h c).1, fun hpos => ((h c).2 hpos).happens hh hs hk hcalm⟩
  have happens := hh
  cases hh with
  | @acted who trace v after hq d hset =>
    have hs' : Supervised { w with trace } := hs.rests (.quiet rfl rfl rfl rfl rfl)
    have hw' : ∀ c, enlisted c w'.trace = enlisted c v.trace := Silent.enlisted hset.silent
    have hw : ∀ c, enlisted c trace = enlisted c w.trace := Silent.enlisted hq
    rcases Deed.enlisted (w := { w with trace }) d hs' with heq | ⟨c₀, hfill, hgrow, hseat⟩
    · exact quiet fun c => (hw' c).trans ((heq c).trans (hw c))
    · intro c
      by_cases hc : c₀ = c
      · -- The cluster had no updater yet, for somebody was about to fill its cache.
        subst hc
        have hnone : enlisted c₀ w.trace = 0 :=
          Decidable.byContradiction fun hpos => ((h c₀).2 hpos).not_fill hk hfill
        refine ⟨?_, fun _ => ?_⟩
        · have hzero : enlisted c₀ trace = 0 := (hw c₀).trans hnone
          exact Nat.le_of_eq (by rw [hw', hgrow, if_pos rfl, hzero])
        · rcases hseat with hl | hstart
          · exact .inl (by rw [cell, hset.caches]; exact hl)
          · exact .inr ⟨who, hset.mine.trans hstart⟩
      · have heq : enlisted c w'.trace = enlisted c w.trace := by
          rw [hw', hgrow, if_neg hc]
          exact hw c
        rw [heq]
        exact ⟨(h c).1, fun hpos => ((h c).2 hpos).happens happens hs hk hcalm⟩
  | rested hi => exact quiet fun c => by rw [hi.trace]
  | dropped _ hi => exact quiet fun c => by rw [hi.trace]
  | @stopped id v _ hv hl =>
    refine quiet fun c => (Silent.enlisted hl.1.silent c).trans ?_
    rcases hv with rfl | ⟨k, rfl⟩ <;> rfl
  | strode _ _ _ hstride =>
    obtain ⟨told, htold, howner⟩ := hstride.told
    refine quiet fun c => ?_
    have hnone : enlisted c told = 0 := List.countP_eq_zero.2 fun m hm hen => by
      have ho := howner m hm
      cases m <;> first | cases hen | cases ho
    rw [← enlisted_filter, htold, Muster.enlisted, List.countP_append]
    show enlisted c told + enlisted c (w.trace.filter Mark.tells) = _
    rw [hnone, enlisted_filter, Nat.zero_add]

/-! ## Who changes a cache -/

/-- Whoever changes a cache is about to fill it, or it is a task of the cluster that calls the
updater. -/
theorem Happens.members (hh : Happens setup w m w') (hs : Supervised w)
    (hne : (w'.caches.entry c).members ≠ (w.caches.entry c).members) :
    (∃ who, w.intent? who = some (.fill c)) ∨
    ∃ id t, m = .step (.task id) ∧ w.tasks[id]? = some t ∧ t.cluster = c ∧
      (t.position.reply?.isSome = true ∨ ∃ s msg l rest,
        t.position = .passing s (.delivery msg) (l :: rest) ∧ l.isUpdater = true) := by
  cases hh with
  | @acted who trace v after hq d hset =>
    have hs' : Supervised { w with trace } := hs.rests (.quiet rfl rfl rfl rfl rfl)
    rw [hset.caches] at hne
    generalize hb : w.intent? who = before at d
    cases d with
    | light h => exact absurd (h.members c) hne
    | wrote h => exact absurd (h.members c) hne
    | announced h => exact absurd (h.members c) hne
    | @refilled load fields hfill =>
      by_cases hc : load.cluster = c
      · exact .inl ⟨who, by rw [hb, hfill, hc]⟩
      · refine absurd ?_ hne
        obtain ⟨u, -, -, -, hcaches, -, hcase⟩ := takeSnapshot_cases setup hs' load fields
        have hu : (u.caches.entry c).members = (w.caches.entry c).members := by
          rw [hcaches, Caches.entry_update, if_neg hc]
        rcases hcase with ⟨f, -, -, heq⟩ | ⟨-, -, -, -, heq⟩ <;> rw [heq]
        · exact (members_updateCell u _ _ c).trans hu
        · rcases awaitStart_cases u load with heq | ⟨seen, heq⟩ <;> rw [heq]
          · exact (members_updateCell u _ _ c).trans hu
          · exact hu
    | @started load =>
      refine absurd ?_ hne
      rcases awaitStart_cases { w with trace } load with heq | ⟨seen, heq⟩ <;> rw [heq]
      exact members_updateCell _ _ _ c
  | rested hi => exact absurd (hi.members c) hne
  | dropped _ hi => exact absurd (hi.members c) hne
  | @stopped id v _ hv hl =>
    refine absurd ?_ hne
    rw [hl.1.caches]
    rcases hv with rfl | ⟨k, rfl⟩
    · rfl
    · exact members_updateCell w k _ c
  | @strode id t hm ht _ hstride =>
    have hc : t.cluster = c := Decidable.byContradiction fun hc => hne (hstride.members hc)
    refine .inr ⟨id, t, hm, ht, hc, ?_⟩
    have same : w'.caches = w.caches → False := fun heq => hne (by rw [heq])
    cases hstride with
    | away h => exact (same h.1.caches).elim
    | alike h => exact (same h.caches).elim
    | opened h => exact (same h.caches).elim
    | woken h => exact (same h.caches).elim
    | received h => exact (same h.caches).elim
    | read h => exact (same h.caches).elim
    | replaced _ _ hl => exact .inl (by rw [hl]; rfl)
    | applied _ _ hl hu => exact .inr ⟨_, _, _, _, hl, hu⟩

/-! ## What is applied -/

/-- The message that a task passes on and has not had applied. -/
def pendingOf (w : World) (id : Nat) : List String :=
  (w.tasks[id]?).elim [] fun t => t.position.pending

/-- The messages that a task passed on, oldest first. -/
def dispatchedBy (id : Nat) (marks : List Mark) : List String :=
  messagesOf Mark.dispatch? (· == id) marks

/-- The messages that the updaters called by a task applied, oldest first. -/
def appliedBy (id : Nat) (marks : List Mark) : List String :=
  messagesOf Mark.application? (· == id) marks

/-- Every message that a task passes on is applied at most once, and the counters tell so. -/
structure Metered (w : World) : Prop where
  received : (w.trace.filterMap Mark.dispatch?).length ≤ w.counters.eventsReceived
  applied : w.counters.eventsApplied = (w.trace.filterMap Mark.application?).length
  behind : ∀ id, (appliedBy id w.trace ++ w.pendingOf id).Sublist (dispatchedBy id w.trace)
  slim : ∀ (id : Nat) (t : Task), w.tasks[id]? = some t → t.position.tally ≤ 1

namespace Metered

theorem fresh (store : Memory) : Metered { store } where
  received := Nat.le_refl 0
  applied := rfl
  behind id := by simp [appliedBy, dispatchedBy, messagesOf, pendingOf]
  slim id t ht := by simp at ht

theorem grow (h : Metered w) (told : List Mark)
    (htold : w'.trace.filter Mark.tells = told ++ w.trace.filter Mark.tells)
    (hreceived : w.counters.eventsReceived + (told.filterMap Mark.dispatch?).length ≤
      w'.counters.eventsReceived)
    (happlied : w'.counters.eventsApplied =
      w.counters.eventsApplied + (told.filterMap Mark.application?).length)
    (hbehind : ∀ id, (appliedBy id told ++ w'.pendingOf id).Sublist
      (w.pendingOf id ++ dispatchedBy id told))
    (hslim : ∀ (id : Nat) (t : Task), w'.tasks[id]? = some t → t.position.tally ≤ 1) :
    Metered w' where
  received := by
    rw [filterMap_grow telling_dispatch? htold, List.length_append, Nat.add_comm]
    exact Nat.le_trans (Nat.add_le_add_right h.received _) hreceived
  applied := by
    rw [filterMap_grow telling_application? htold, List.length_append, happlied, h.applied,
      Nat.add_comm]
  behind id := by
    rw [appliedBy, dispatchedBy, messagesOf_grow telling_application? htold,
      messagesOf_grow telling_dispatch? htold, List.append_assoc]
    exact ((hbehind id).append_left _).trans
      (List.append_assoc .. ▸ (h.behind id).append_right _)
  slim := hslim

/-- No message is passed on or applied, and no task has more to apply than before. -/
theorem calm (h : Metered w) (told : List Mark)
    (htold : w'.trace.filter Mark.tells = told ++ w.trace.filter Mark.tells)
    (howner : ∀ m ∈ told, m.owner? = none)
    (hreceived : w.counters.eventsReceived ≤ w'.counters.eventsReceived)
    (happlied : w'.counters.eventsApplied = w.counters.eventsApplied)
    (htasks : ∀ (id : Nat) (t' : Task), w'.tasks[id]? = some t' → t'.position.tally = 0 ∨
      ∃ t : Task, w.tasks[id]? = some t ∧ t.position.Alike t'.position) : Metered w' := by
  have hnone : ∀ {kind : Mark → Option (Nat × String)} (id : Nat), Telling kind →
      messagesOf kind (· == id) told = [] := fun id hk =>
    messagesOf_eq_nil hk fun m hm j hj => by
      rw [howner m hm] at hj
      cases hj
  refine h.grow told htold ?_ ?_ (fun id => ?_) fun id t' ht' => ?_
  · rw [filterMap_eq_nil telling_dispatch? howner]
    simpa using hreceived
  · rw [filterMap_eq_nil telling_application? howner]
    simpa using happlied
  · rw [appliedBy, dispatchedBy, hnone id telling_application?, hnone id telling_dispatch?]
    simp only [List.nil_append, List.append_nil]
    cases ht' : w'.tasks[id]? with
    | none => simp [pendingOf, ht']
    | some t' =>
      rcases htasks id t' ht' with hzero | ⟨t, ht, halike⟩
      · simp [pendingOf, ht', Position.pending, hzero]
      · simp [pendingOf, ht', ht, Position.pending_congr halike]
  · rcases htasks id t' ht' with hzero | ⟨t, ht, halike⟩
    · rw [hzero]
      exact Nat.zero_le 1
    · rw [halike.tally]
      exact h.slim id t ht

/-- The task goes on to a position, and the other tasks stay where they are. -/
theorem goes {v : World} {p : Position} (h : Metered w) (told : List Mark)
    (ht : w.tasks[id]? = some t)
    (ha : Apart id v w') (hv : v.tasks = w.tasks) (hat : At id w' p)
    (htold : v.trace.filter Mark.tells = told ++ w.trace.filter Mark.tells)
    (howner : ∀ m ∈ told, m.owner? = some id)
    (hreceived : w.counters.eventsReceived + (told.filterMap Mark.dispatch?).length ≤
      v.counters.eventsReceived)
    (happlied : v.counters.eventsApplied =
      w.counters.eventsApplied + (told.filterMap Mark.application?).length)
    (hbehind : (appliedBy id told ++ p.pending).Sublist
      (t.position.pending ++ dispatchedBy id told))
    (hslim : p.tally ≤ 1) : Metered w' := by
  obtain ⟨t', ht', rfl⟩ := hat
  have others : ∀ j, id ≠ j → w'.tasks[j]? = w.tasks[j]? := fun j hj =>
    (ha.others j hj).trans (by rw [hv])
  have hnone : ∀ {kind : Mark → Option (Nat × String)} (j : Nat), id ≠ j → Telling kind →
      messagesOf kind (· == j) told = [] := fun j hj hk =>
    messagesOf_eq_nil hk fun m hm k hk => by
      cases (howner m hm).symm.trans hk
      simpa using hj
  refine h.grow told (Eq.trans ha.silent htold) (Nat.le_trans hreceived ha.received)
    (ha.applied.trans happlied) (fun j => ?_) fun j u hu => ?_
  · by_cases hj : id = j
    · subst hj
      simpa [pendingOf, ht', ht] using hbehind
    · rw [appliedBy, dispatchedBy, hnone j hj telling_application?, hnone j hj telling_dispatch?,
        pendingOf, others j hj]
      simp [pendingOf]
  · by_cases hj : id = j
    · subst hj
      cases ht'.symm.trans hu
      exact hslim
    · exact h.slim j u (others j hj ▸ hu)

/-- A task passes a message on to at most one updater, and applies it then. -/
theorem stride (h : Metered w) (ht : w.tasks[id]? = some t) (hstride : Stride setup id t w w')
    (haudience : (w.listeners.of t.cluster).countP Listener.isUpdater ≤ 1) : Metered w' := by
  have quiet : ∀ {v : World} {p : Position}, Apart id v w' → v.tasks = w.tasks →
      v.trace = w.trace → v.counters = w.counters → At id w' p → p.tally = t.position.tally →
      p.pending = t.position.pending → Metered w' := by
    intro v p ha hv htrace hcount hat htally hpending
    refine h.goes [] ht ha hv hat (by rw [htrace]; rfl) (by simp) ?_ ?_ ?_ ?_
    · rw [hcount]
      simp
    · rw [hcount]
      simp
    · rw [hpending]
      simp [appliedBy, dispatchedBy, messagesOf]
    · rw [htally]
      exact h.slim id t ht
  cases hstride with
  | away ha =>
    obtain ⟨ha, t', ht', hstream⟩ := ha
    refine h.calm [] ha.silent (by simp) ha.received ha.applied fun j u hu => ?_
    by_cases hj : id = j
    · subst hj
      cases ht'.symm.trans hu
      exact .inl (Position.tally_of_stream? hstream)
    · exact .inr ⟨u, ha.others j hj ▸ hu, .refl _⟩
  | alike ha _ hat halike =>
    exact quiet ha rfl rfl rfl hat halike.tally (Position.pending_congr halike)
  | opened ha hl hat => exact quiet ha rfl rfl rfl hat (by rw [hl]; rfl) (by rw [hl]; rfl)
  | woken ha _ hl hat => exact quiet ha rfl rfl rfl hat (by rw [hl]; rfl) (by rw [hl]; rfl)
  | @received s payload msg ha hl _ _ hat =>
    refine h.goes [.dispatched id msg (w.listeners.of t.cluster)] ht ha rfl hat rfl
      (by simp [Mark.owner?]) (Nat.le_refl _) rfl ?_ haudience
    rw [hl, Position.pending]
    split
    · exact List.nil_sublist _
    · simp [appliedBy, dispatchedBy, messagesOf, Mark.dispatch?, Mark.application?,
        Position.pending, Position.tally, Position.message?, Pass.message?]
  | read ha _ hl hat => exact quiet ha rfl rfl rfl hat (by rw [hl]; rfl) (by rw [hl]; rfl)
  | replaced ha _ hl hat => exact quiet ha rfl rfl rfl hat (by rw [hl]; rfl) (by rw [hl]; rfl)
  | @applied s msg l rest e ha _ hl hu _ hat =>
    -- There is one updater, so the message is not applied once more.
    have hone := h.slim id t ht
    have hrest : rest.countP Listener.isUpdater = 0 := by
      rw [hl] at hone
      simpa [Position.tally, Pass.tally, hu] using hone
    cases l with
    | user name => cases hu
    | updater c n =>
      refine h.goes [.returned id (.updater c n) (.event msg) none] ht ha rfl hat rfl
        (by simp [Mark.owner?]) (Nat.le_refl _) rfl ?_
        (Nat.le_trans (Nat.le_of_eq hrest) (Nat.zero_le 1))
      have hpending : Position.pending (.passing s (.delivery msg) rest) = [] := if_pos hrest
      rw [hl, hpending]
      simp [appliedBy, dispatchedBy, messagesOf, Mark.dispatch?, Mark.application?,
        Position.pending, Position.tally, Pass.tally, Position.message?, Pass.message?,
        Listener.isUpdater]

theorem happens (h : Metered w) (hh : Happens setup w m w') (hs : Supervised w) (hb : Booked w)
    (he : Enrolled w) : Metered w' := by
  have idle : Idles w w' → Metered w' := fun hi =>
    h.calm [] (by rw [hi.trace]; rfl) (by simp) (Nat.le_of_eq (by rw [hi.counters]))
      (by rw [hi.counters]) fun j t' ht' => .inr (hi.tasks j t' ht')
  cases hh with
  | @acted who trace v after hq d hset =>
    have hs' : Supervised { w with trace } := hs.rests (.quiet rfl rfl rfl rfl rfl)
    obtain ⟨told, htold, howner⟩ := Deed.told (w := { w with trace }) d hs'
    have hevents : w'.counters.events = w.counters.events :=
      (congrArg Counters.events hset.counters).trans (Deed.events (w := { w with trace }) d hs')
    refine h.calm told (Eq.trans hset.silent (htold.trans (congrArg _ hq))) howner
      (Nat.le_of_eq (congrArg (·.1.1) hevents).symm) (congrArg (·.1.2.1) hevents)
      fun j t' ht' => ?_
    obtain ⟨u, hu, halike⟩ := hset.tasks j t' ht'
    have helse : Elsewhere j { w with trace } v := .edits d.edits
    cases ht : w.tasks[j]? with
    | none =>
      left
      rw [halike.tally, helse.fresh ht u hu]
      rfl
    | some t =>
      obtain ⟨u', hu', -, hp, -⟩ := helse.task t ht
      cases hu.symm.trans hu'
      exact .inr ⟨t, rfl, hp ▸ halike⟩
  | rested hi => exact idle hi
  | dropped _ hi => exact idle hi
  | @stopped j v _ hv hl =>
    obtain ⟨ha, t', ht', hstream⟩ := hl
    have htasks : v.tasks = w.tasks ∧ v.trace = w.trace ∧ v.counters = w.counters := by
      rcases hv with rfl | ⟨k, rfl⟩ <;> exact ⟨rfl, rfl, rfl⟩
    obtain ⟨hvt, hvtrace, hvcount⟩ := htasks
    refine h.calm [] (Eq.trans ha.silent (by rw [hvtrace]; rfl)) (by simp)
      (hvcount ▸ ha.received) (hvcount ▸ ha.applied) fun k u hu => ?_
    by_cases hk : j = k
    · subst hk
      cases ht'.symm.trans hu
      exact .inl (Position.tally_of_stream? hstream)
    · rw [ha.others k hk, hvt] at hu
      exact .inr ⟨u, hu, .refl _⟩
  | @strode j t _ ht _ hstride =>
    refine h.stride ht hstride ?_
    rw [hb.of]
    exact Nat.le_trans (countP_registered _ _) (he t.cluster).1

/-- No more events are applied than were received. -/
theorem applied_le (h : Metered w) : w.counters.eventsApplied ≤ w.counters.eventsReceived := by
  have counted : ∀ (kind : Mark → Option (Nat × String)) (j : Nat),
      (messagesOf kind (· == j) w.trace).length =
        ((w.trace.filterMap kind).map Prod.fst).count j := by
    intro kind j
    rw [messagesOf, List.length_filterMap_eq_countP, List.countP_reverse, List.count,
      List.countP_map]
    refine List.countP_congr fun p _ => ?_
    by_cases hp : p.1 == j <;> simp [hp]
  have hsub : ((w.trace.filterMap Mark.application?).map Prod.fst).Subperm
      ((w.trace.filterMap Mark.dispatch?).map Prod.fst) := by
    refine List.subperm_ext_iff.2 fun j _ => ?_
    rw [← counted, ← counted]
    exact ((List.sublist_append_left _ _).trans (h.behind j)).length_le
  have hlength := hsub.length_le
  rw [List.length_map, List.length_map, ← h.applied] at hlength
  exact Nat.le_trans hlength h.received

end Metered

theorem Seated.stored (h : w.Seated c) (store : Memory) : ({ w with store } : World).Seated c :=
  h.imp id (Exists.imp fun who hx => (intent?_congr (w := w) rfl rfl who).trans hx)

instance (w : World) (m : Move) : Decidable (w.Hasty m) :=
  decidable_of_iff (((w.dropped? m).bind w.intent?).any Intent.isStart = true) <| by
    simp only [Option.any_eq_true, Option.bind_eq_some_iff]
    constructor
    · rintro ⟨x, ⟨who, hd, hx⟩, hstart⟩
      cases x with
      | start c => exact ⟨who, c, hd, hx⟩
      | _ => cases hstart
    · rintro ⟨who, c, hd, hx⟩
      exact ⟨.start c, ⟨who, hd, hx⟩, rfl⟩

end World

namespace Fleet

variable {setups : Nat → Setup} {f g : Fleet} {i : Nat} {w : World}

/-- The states that moves lead to in which a client never gives up a load that has refilled its
cache and waits for the first attempt. -/
def Patient (setups : Nat → Setup) (i : Nat) : Fleet → Fleet → Prop :=
  Guarded setups fun j m f _ => j = i → ∀ w ∈ f.world? i, ¬ w.Hasty m

/-- Makes moves one after another, unless the client gives up a load hastily. -/
def runPatient (setups : Nat → Setup) (i : Nat) (f : Fleet) : List (Nat × Move) → Option Fleet :=
  f.runGuarded setups fun j m f _ => j = i → ∀ w ∈ f.world? i, ¬ w.Hasty m

theorem patient_of_run {ms : List (Nat × Move)} (h : f.runPatient setups i ms = some g) :
    Patient setups i f g := guarded_of_run h

/-- What holds of a client that never gives up a load hastily. -/
theorem metered_of_patient {store : Memory} {n : Nat} (hs : store.channels.entries = [])
    (hp : Patient setups i (start store n) f) (hw : f.world? i = some w) :
    w.Enrolled ∧ w.Metered := by
  induction hp generalizing w with
  | refl =>
    rw [world?_start hw]
    exact ⟨fun c => ⟨Nat.zero_le 1, fun hpos => absurd rfl hpos⟩, .fresh store⟩
  | @move f g j m past next calm ih =>
    have hreach : Reachable setups f := ⟨store, n, hs, past.reaches⟩
    obtain ⟨v, v', hv, hm, -, hi, hothers⟩ := move_cases next
    by_cases hj : j = i
    · subst hj
      cases hi.symm.trans hw
      obtain ⟨henrolled, hmetered⟩ := ih hv
      have hstreamed := Streamed.of_reachable hreach
      have hsup := hstreamed.supervised hv
      obtain ⟨hkept, hproper⟩ := kept_of_reachable hreach hv
      have hhappens := World.move_happens hsup hproper hm
      exact ⟨henrolled.happens hhappens hsup hkept (calm rfl v hv),
        hmetered.happens hhappens hsup (hstreamed.recorded hv).booked henrolled⟩
    · rw [hothers i hj] at hw
      obtain ⟨u, hu, rfl⟩ := Option.map_eq_some_iff.1 hw
      obtain ⟨henrolled, hmetered⟩ := ih hu
      exact ⟨fun c => ⟨(henrolled c).1, fun hpos => ((henrolled c).2 hpos).stored v'.store⟩,
        hmetered.received, hmetered.applied, hmetered.behind, hmetered.slim⟩

/-- As long as a client never gives up a load between attaching the updater and the outcome of the
first attempt, a cluster gets one updater. From then on only a task of the cluster changes its
cache, in a call of the updater. A task applies a message that it passed on once, in the order in
which they arrived, and no more events are applied than were received. -/
theorem one_updater_per_cluster {store : Memory} {n : Nat} (hs : store.channels.entries = [])
    (hp : Patient setups i (start store n) f) (hw : f.world? i = some w) :
    (∀ c, enlisted c w.trace ≤ 1) ∧
    (∀ c j m g w', enlisted c w.trace ≠ 0 → f.move setups j m = some g → g.world? i = some w' →
      (w'.caches.entry c).members ≠ (w.caches.entry c).members →
      j = i ∧ ∃ id t, m = .step (.task id) ∧ w.tasks[id]? = some t ∧ t.cluster = c ∧
        (t.position.reply?.isSome = true ∨ ∃ s msg l rest,
          t.position = .passing s (.delivery msg) (l :: rest) ∧ l.isUpdater = true)) ∧
    (∀ id, (World.appliedBy id w.trace).Sublist (World.dispatchedBy id w.trace)) ∧
    w.counters.eventsApplied ≤ w.counters.eventsReceived := by
  obtain ⟨henrolled, hmetered⟩ := metered_of_patient hs hp hw
  refine ⟨fun c => (henrolled c).1, ?_,
    fun id => (List.sublist_append_left _ _).trans (hmetered.behind id), hmetered.applied_le⟩
  intro c j m g w' hpos next hw' hne
  obtain ⟨v, v', hv, hm, -, hi, hothers⟩ := move_cases next
  by_cases hj : j = i
  · subst hj
    cases hw.symm.trans hv
    cases hw'.symm.trans hi
    have hreach : Reachable setups f := ⟨store, n, hs, hp.reaches⟩
    have hsup := (Streamed.of_reachable hreach).supervised hw
    obtain ⟨hkept, hproper⟩ := kept_of_reachable hreach hw
    have hhappens := World.move_happens hsup hproper hm
    refine ⟨rfl, (hhappens.members hsup hne).resolve_left ?_⟩
    rintro ⟨who, hfill⟩
    exact ((henrolled c).2 hpos).not_fill hkept hfill
  · rw [hothers i hj, hw] at hw'
    cases hw'
    exact absurd rfl hne

/-- A cluster is loaded with patience, and its updater applies an event. -/
theorem one_updater_per_cluster_event : ∃ f w g w',
    Patient (fun _ => .mapped "me@here" "c") 0 (start .usual 1) f ∧ f.world? 0 = some w ∧
    f.move (fun _ => .mapped "me@here" "c") 0 (.step (.task 0)) = some g ∧ g.world? 0 = some w' ∧
    enlisted "c" w.trace = 1 ∧ (w.caches.entry "c").members = [] ∧
    (w'.caches.entry "c").members.map Address.text = ["10.0.0.1:8091"] ∧
    w.counters.eventsApplied ≤ w.counters.eventsReceived ∧
    (World.appliedBy 0 w.trace).Sublist (World.dispatchedBy 0 w.trace) ∧
    ∃ (id : Nat) (t : Task), w.tasks[id]? = some t ∧ t.cluster = "c" ∧
      (t.position.reply?.isSome = true ∨ ∃ s msg l rest,
        t.position = .passing s (.delivery msg) (l :: rest) ∧ l.isUpdater = true) := by
  obtain ⟨f, hf, hp⟩ := (Option.any_eq_true _ _).1 (show
    ((start .usual 1).runPatient (fun _ => .mapped "me@here" "c") 0
      ((0, .ask 0 (.lookup "k")) :: List.replicate 2 (0, .step (.call 0)) ++
        List.replicate 5 (0, .step (.task 0)) ++ [(0, .step (.call 0)),
        (0, .ask 1 (.send "registry.redis.c" ["10.0.0.1:8091-REGISTER"]))] ++
        List.replicate 2 (0, .step (.task 0)))).any (fun f => (f.world? 0).any fun w =>
      enlisted "c" w.trace == 1 && (w.caches.entry "c").members == [] &&
      (f.move (fun _ => .mapped "me@here" "c") 0 (.step (.task 0))).any fun g =>
        (g.world? 0).any fun w' =>
          (w'.caches.entry "c").members.map Address.text == ["10.0.0.1:8091"]) = true
    by decide +kernel)
  simp only [Option.any_eq_true, Bool.and_eq_true, beq_iff_eq] at hp
  obtain ⟨w, hw, ⟨hone, hempty⟩, g, next, w', hw', hmembers⟩ := hp
  have hpatient := patient_of_run hf
  obtain ⟨-, hchange, happlied, hcount⟩ := one_updater_per_cluster rfl hpatient hw
  have hpos : enlisted "c" w.trace ≠ 0 := by rw [hone]; exact Nat.one_ne_zero
  have hne : (w'.caches.entry "c").members ≠ (w.caches.entry "c").members := by
    intro heq
    rw [heq, hempty] at hmembers
    cases hmembers
  obtain ⟨-, id, t, -, ht, hc, hcall⟩ := hchange "c" 0 _ g w' hpos next hw' hne
  exact ⟨f, w, g, w', hpatient, hw, next, hw', hone, hempty, hmembers, hcount, happlied 0,
    id, t, ht, hc, hcall⟩

/-- A lookup is given up while it waits for the first attempt. The next one attaches another
updater, and the two apply the only event that arrives twice. -/
theorem second_updater_after_drop : ∃ f w, Reachable (fun _ => .mapped "me@here" "c") f ∧
    f.world? 0 = some w ∧ enlisted "c" w.trace = 2 ∧
    World.dispatchedBy 0 w.trace = ["10.0.0.1:8091-REGISTER"] ∧
    World.appliedBy 0 w.trace = ["10.0.0.1:8091-REGISTER", "10.0.0.1:8091-REGISTER"] ∧
    w.counters.eventsReceived = 1 ∧ w.counters.eventsApplied = 2 := by
  obtain ⟨f, w, hf, hw, hp⟩ := exists_of_run (fun _ => .mapped "me@here" "c") .usual 1 0
    ((0, .ask 0 (.lookup "k")) :: List.replicate 2 (0, .step (.call 0)) ++
      [(0, .drop 0), (0, .ask 1 (.lookup "k"))] ++ List.replicate 2 (0, .step (.call 1)) ++
      List.replicate 8 (0, .step (.task 0)) ++
      [(0, .ask 2 (.send "registry.redis.c" ["10.0.0.1:8091-REGISTER"]))] ++
      List.replicate 6 (0, .step (.task 0)))
    (fun w => enlisted "c" w.trace == 2 &&
      World.dispatchedBy 0 w.trace == ["10.0.0.1:8091-REGISTER"] &&
      World.appliedBy 0 w.trace == ["10.0.0.1:8091-REGISTER", "10.0.0.1:8091-REGISTER"] &&
      w.counters.eventsReceived == 1 && w.counters.eventsApplied == 2) rfl (by decide +kernel)
  simp only [Bool.and_eq_true, beq_iff_eq] at hp
  obtain ⟨⟨⟨⟨htwo, hd⟩, ha⟩, hreceived⟩, happlied⟩ := hp
  exact ⟨f, w, hf, hw, htwo, hd, ha, hreceived, happlied⟩

end Fleet

end Muster
