import Muster.Proofs.Lookups

/-!
# The line before a cell

Whoever loads a cluster owns its cell, those who wait are in its line or own it by now, and nobody is
there twice (`Lined`). A move gives one actor another post and lets it enter or leave one cell
(`Turns`), so that a cell is left by the owner to the first in line, and a loaded one stays loaded.
-/
namespace Muster

namespace World

variable {setup : Setup} {w v w' : World} {m : Move} {who : Actor} {c : String}

/-! ## Those in line -/

/-- Whoever waits is in line or owns the cell by now, those who are there have a post, and nobody is
there twice. -/
structure Lined (w : World) : Prop where
  waits : ∀ {who c}, w.post? who = some (.waits c) → w.cell c = .loaded ∨ who ∈ (w.cell c).party
  owner : ∀ {who c}, (w.cell c).owner? = some who →
    w.post? who = some (.waits c) ∨ w.post? who = some (.loads c)
  line : ∀ {who c}, who ∈ (w.cell c).line → w.post? who = some (.waits c)
  nodup : ∀ c, (w.cell c).party.Nodup

/-- One actor gets another post, and one cell changes. -/
structure Shifts (who : Actor) (post : Option Post) (c : String) (cell : Cell Actor)
    (w w' : World) : Prop where
  mine : w'.post? who = post
  others : ∀ who', who ≠ who' → w'.post? who' = w.post? who'
  cell : w'.cell c = cell
  cells : ∀ c', c ≠ c' → w'.cell c' = w.cell c'

/-- The cell that an actor leaves or enters fits the post it gets. -/
structure Fits (w : World) (who : Actor) (post : Option Post) (c : String)
    (cell : Cell Actor) : Prop where
  loaded : w.cell c = .loaded → cell = .loaded
  waits : ∀ c', post = some (.waits c') → c = c' ∧ who ∈ cell.party
  owner : ∀ x, cell.owner? = some x → who ≠ x ∧ x ∈ (w.cell c).party ∨
    who = x ∧ (post = some (.waits c) ∨ post = some (.loads c))
  line : ∀ x ∈ cell.line, who ≠ x ∧ x ∈ (w.cell c).line ∨ who = x ∧ post = some (.waits c)
  owned : ∀ x, (w.cell c).owner? = some x → cell.owner? = some x ∨
    who = x ∧ ∀ c', post ≠ some (.waits c')
  stays : cell = .loaded ∨
    ∀ x ∈ (w.cell c).party, who ≠ x → w.post? x = some (.waits c) → x ∈ cell.party
  nodup : cell.party.Nodup

namespace Lined

variable {post : Option Post} {cell : Cell Actor}

theorem fresh (store : Memory) : Lined { store } := by
  have hempty : ∀ c, ({ store } : World).cell c = .empty := fun _ => rfl
  have hnone : ∀ who, ({ store } : World).post? who = none := fun who => by cases who <;> rfl
  exact ⟨fun h => by simp [hnone] at h, fun h => by simp [hempty, Cell.owner?] at h,
    fun h => by simp [hempty, Cell.line] at h, fun c => by simp [hempty, Cell.party]⟩

theorem same (h : w.Lined) (hp : ∀ who, w'.post? who = w.post? who)
    (hc : ∀ c, w'.cell c = w.cell c) : w'.Lined where
  waits hw := by
    rw [hc]
    exact h.waits (hp _ ▸ hw)
  owner ho := by
    rw [hp]
    exact h.owner (hc _ ▸ ho)
  line hl := by
    rw [hp]
    exact h.line (hc _ ▸ hl)
  nodup c := hc c ▸ h.nodup c

theorem party (h : w.Lined) (hmem : who ∈ (w.cell c).party) :
    w.post? who = some (.waits c) ∨ w.post? who = some (.loads c) := by
  cases hc : w.cell c with
  | loading o line =>
    rw [hc] at hmem
    rcases List.mem_cons.1 hmem with rfl | hmem
    · exact h.owner (by rw [hc]; rfl)
    · exact .inl (h.line (by rw [hc]; exact hmem))
  | _ =>
    rw [hc] at hmem
    cases hmem

theorem shift (h : w.Lined) (s : Shifts who post c cell w w') (hf : w.Fits who post c cell)
    (hold : ∀ c', c ≠ c' → who ∉ (w.cell c').party) : w'.Lined where
  waits := by
    intro who' c' hw
    by_cases hwho : who = who'
    · subst hwho
      obtain ⟨rfl, hmem⟩ := hf.waits c' (s.mine ▸ hw)
      exact .inr (s.cell ▸ hmem)
    · rw [s.others who' hwho] at hw
      by_cases hc : c = c'
      · subst hc
        rw [s.cell]
        rcases h.waits hw with hl | hmem
        · exact .inl (hf.loaded hl)
        · exact hf.stays.imp_right fun hstays => hstays who' hmem hwho hw
      · rw [s.cells c' hc]
        exact h.waits hw
  owner := by
    intro who' c' ho
    by_cases hc : c = c'
    · subst hc
      rw [s.cell] at ho
      rcases hf.owner who' ho with ⟨hne, hmem⟩ | ⟨rfl, hpost⟩
      · rw [s.others who' hne]
        exact h.party hmem
      · rwa [s.mine]
    · rw [s.cells c' hc] at ho
      have hne : who ≠ who' := by
        rintro rfl
        exact hold c' hc (Cell.mem_party_of_owner? ho)
      rw [s.others who' hne]
      exact h.owner ho
  line := by
    intro who' c' hl
    by_cases hc : c = c'
    · subst hc
      rw [s.cell] at hl
      rcases hf.line who' hl with ⟨hne, hmem⟩ | ⟨rfl, hpost⟩
      · rw [s.others who' hne]
        exact h.line hmem
      · exact s.mine.trans hpost
    · rw [s.cells c' hc] at hl
      have hne : who ≠ who' := by
        rintro rfl
        exact hold c' hc (Cell.mem_party_of_line hl)
      rw [s.others who' hne]
      exact h.line hl
  nodup c' := by
    by_cases hc : c = c'
    · subst hc
      exact s.cell ▸ hf.nodup
    · exact s.cells c' hc ▸ h.nodup c'

/-- Whoever has no post is in no cell, and whoever has one is in no other. -/
theorem not_mem (h : w.Lined) {c' : String} (hp : w.post? who ≠ some (.waits c'))
    (hp' : w.post? who ≠ some (.loads c')) : who ∉ (w.cell c').party := fun hmem =>
  (h.party hmem).elim hp hp'

end Lined

/-! ### The cells that fit -/

theorem fits_loaded (howned : ∀ x, (w.cell c).owner? = some x → who = x) :
    w.Fits who none c .loaded where
  loaded _ := rfl
  waits _ h := by cases h
  owner _ h := by cases h
  line _ h := by cases h
  owned x h := .inr ⟨howned x h, by simp⟩
  stays := .inl rfl
  nodup := List.nodup_nil

theorem fits_first (who : Actor) (hc : w.cell c = .empty) :
    w.Fits who (some (.loads c)) c (.loading who []) where
  loaded h := by simp [hc] at h
  waits _ h := by cases h
  owner x h := .inr ⟨Option.some.inj h, .inr rfl⟩
  line x h := by cases h
  owned x h := by simp [hc, Cell.owner?] at h
  stays := .inr fun x hx => by simp [hc, Cell.party] at hx
  nodup := by simp [Cell.party]

theorem Lined.fits_behind (h : w.Lined) {o : Actor} {line : List Actor}
    (hc : w.cell c = .loading o line) (hnew : who ∉ (w.cell c).party) :
    w.Fits who (some (.waits c)) c (.loading o (line ++ [who])) where
  loaded h := by simp [hc] at h
  waits c' h := by
    cases h
    exact ⟨rfl, by simp [Cell.party]⟩
  owner x ho := by
    cases ho
    have hmem : o ∈ (w.cell c).party := by simp [hc, Cell.party]
    exact .inl ⟨fun heq => hnew (heq ▸ hmem), hmem⟩
  line x hx := by
    rcases List.mem_append.1 hx with hx | hx
    · have hmem : x ∈ (w.cell c).line := by rw [hc]; exact hx
      exact .inl ⟨fun heq => hnew (heq ▸ Cell.mem_party_of_line hmem), hmem⟩
    · exact .inr ⟨(List.mem_singleton.1 hx).symm, rfl⟩
  owned x hx := by
    rw [hc] at hx
    exact .inl hx
  stays := .inr fun x hx _ _ => by
    rw [hc] at hx
    rcases List.mem_cons.1 hx with rfl | hx
    · exact List.mem_cons_self
    · exact List.mem_cons_of_mem _ (List.mem_append_left _ hx)
  nodup := by
    have hnodup := h.nodup c
    rw [hc] at hnodup hnew
    show ((o :: line) ++ [who]).Nodup
    rw [List.nodup_append]
    refine ⟨hnodup, by simp, fun x hx y hy => ?_⟩
    rintro rfl
    exact hnew (List.mem_singleton.1 hy ▸ hx)

/-- The owner's turn has come. -/
theorem Lined.fits_owner (h : w.Lined) (ho : (w.cell c).owner? = some who) :
    w.Fits who (some (.loads c)) c (w.cell c) where
  loaded hl := hl
  waits _ h := by cases h
  owner x hx := .inr ⟨Option.some.inj (ho.symm.trans hx), .inr rfl⟩
  line x hx := by
    have hnodup := h.nodup c
    cases hc : w.cell c with
    | loading o line =>
      rw [hc] at ho hx hnodup
      cases ho
      exact .inl ⟨fun heq => (List.nodup_cons.1 hnodup).1 (heq ▸ hx), hx⟩
    | _ =>
      rw [hc] at ho
      cases ho
  owned x hx := .inl hx
  stays := .inr fun _ hx _ _ => hx
  nodup := h.nodup c

/-- Whoever leaves gets no post. -/
theorem Fits.gone {cell : Cell Actor} (hloaded : w.cell c = .loaded → cell = .loaded)
    (howner : ∀ x, cell.owner? = some x → who ≠ x ∧ x ∈ (w.cell c).party)
    (hline : ∀ x ∈ cell.line, who ≠ x ∧ x ∈ (w.cell c).line)
    (howned : ∀ x, (w.cell c).owner? = some x → cell.owner? = some x ∨ who = x)
    (hstays : ∀ x ∈ (w.cell c).party, who ≠ x → x ∈ cell.party) (hnodup : cell.party.Nodup) :
    w.Fits who none c cell where
  loaded := hloaded
  waits _ h := by cases h
  owner x h := .inl (howner x h)
  line x h := .inl (hline x h)
  owned x h := (howned x h).imp_right fun heq => ⟨heq, by simp⟩
  stays := .inr fun x hx hne _ => hstays x hx hne
  nodup := hnodup

theorem Lined.fits_leave (h : w.Lined) (who : Actor) (c : String) :
    w.Fits who none c ((w.cell c).leave who) := by
  have hnodup := h.nodup c
  generalize hc : w.cell c = cell at hnodup
  cases cell with
  | empty =>
    exact .gone (by simp [hc]) (by simp [Cell.leave, Cell.owner?]) (by simp [Cell.leave, Cell.line])
      (by simp [hc, Cell.owner?]) (by simp [hc, Cell.party]) List.nodup_nil
  | loaded => exact fits_loaded fun x hx => by simp [hc, Cell.owner?] at hx
  | loading o line =>
    obtain ⟨ho, hline⟩ := List.nodup_cons.1 hnodup
    by_cases hwho : o = who
    · subst hwho
      rw [Cell.leave, if_pos rfl]
      cases line with
      | nil =>
        exact .gone (by simp [hc]) (by simp [Cell.handOver, Cell.owner?])
          (by simp [Cell.handOver, Cell.line]) (by simp [hc, Cell.owner?])
          (fun x hx hne => by simp [hc, Cell.party, Ne.symm hne] at hx) List.nodup_nil
      | cons n rest =>
        refine .gone (by simp [hc]) (fun x hx => ?_) (fun x hx => ?_) (by simp [hc, Cell.owner?])
          (fun x hx hne => ?_) hline
        · cases hx
          exact ⟨fun heq => ho (heq ▸ List.mem_cons_self), by simp [hc, Cell.party]⟩
        · exact ⟨fun heq => ho (heq ▸ List.mem_cons_of_mem n hx),
            by rw [hc]; exact List.mem_cons_of_mem n hx⟩
        · rw [hc] at hx
          exact (List.mem_cons.1 hx).resolve_left (Ne.symm hne)
    · rw [Cell.leave, if_neg hwho]
      refine .gone (by simp [hc]) (fun x hx => ?_) (fun x hx => ?_)
        (fun x hx => .inl (by rwa [hc] at hx)) (fun x hx hne => ?_) ?_
      · cases hx
        exact ⟨Ne.symm hwho, by simp [hc, Cell.party]⟩
      · obtain ⟨hne, hmem⟩ := (hline.mem_erase_iff).1 hx
        exact ⟨Ne.symm hne, by rw [hc]; exact hmem⟩
      · rw [hc] at hx
        rcases List.mem_cons.1 hx with rfl | hx
        · exact List.mem_cons_self
        · exact List.mem_cons_of_mem _ ((hline.mem_erase_iff).2 ⟨Ne.symm hne, hx⟩)
      · exact List.nodup_cons.2 ⟨fun hmem => ho (List.mem_of_mem_erase hmem), hline.erase _⟩

/-! ### Moves -/

/-- What a move does to those who have posts. -/
inductive Turns (w w' : World) : Prop
  | same (hp : ∀ who, w'.post? who = w.post? who) (hc : ∀ c, w'.cell c = w.cell c)
  | shift {who : Actor} {post : Option Post} {c : String} {cell : Cell Actor}
      (s : Shifts who post c cell w w') (hf : w.Fits who post c cell)
      (hold : ∀ c', c ≠ c' → who ∉ (w.cell c').party)

theorem abandon_cell (w : World) (who : Actor) (stage : Stage) (c : String) :
    (w.abandon who stage).cell c =
      if stage.load?.any (·.cluster = c) then (w.cell c).leave who else w.cell c := by
  cases stage <;> first | rfl | simp [abandon, Stage.load?, cell, cell_updateCell]

theorem move_turns (hs : Supervised w) (hp : w.Proper) (hk : w.Kept) (hl : w.Lined)
    (hm : w.move setup m = some w') : Turns w w' := by
  -- Whoever has a post in one cluster has none in another.
  have posted : ∀ {who stage load}, w.stage? who = some stage → stage.load? = some load →
      ∀ c, load.cluster ≠ c → who ∉ (w.cell c).party := by
    intro who stage load hst hload c hne
    have hpost : w.post? who = stage.post? := by rw [post?, hst]; rfl
    refine hl.not_mem ?_ ?_ <;> rw [hpost] <;> cases stage <;> cases hload <;> simp [Stage.post?, hne]
  cases move_course hp hm with
  | @begun who a mark v p hb hnone hmark hrun hset =>
    have hnone : w.post? who = none := by rw [post?, hnone]; rfl
    have hnew : ∀ c, who ∉ (w.cell c).party := fun c => hl.not_mem (by simp [hnone]) (by simp [hnone])
    have hcell : ∀ c, w'.cell c = v.cell c := fun c => by rw [cell, hset.caches, cell]
    have hmine : w'.post? who = p.stage?.bind Stage.post? := by rw [post?, hset.mine]
    have hothers : ∀ who', who ≠ who' → w'.post? who' = w.post? who' := fun who' hne => by
      have hsup : Supervised (w.note mark) := hs.rests (.note w mark)
      rw [post?, hset.others who' hne, begin_stages hsup hrun who']
      rfl
    rcases begin_enters (w := w.note mark) (fun c ho => hnew c (Cell.mem_party_of_owner? ho)) hrun with
      ⟨load, henters⟩ | ⟨hcells, hpost⟩
    · cases henters with
      | served hc hv =>
        have hc : w.cell load.cluster = .loaded := hc
        refine .shift (c := load.cluster) ⟨hmine, hothers, (hcell _).trans ((hv _).trans hc),
          fun c _ => (hcell c).trans (hv c)⟩
          (fits_loaded fun x hx => by simp [hc, Cell.owner?] at hx) fun c _ => hnew c
      | first hc hv hcs =>
        exact .shift ⟨hmine, hothers, (hcell _).trans hv, fun c hne => (hcell c).trans (hcs c hne)⟩
          (fits_first who hc) fun c _ => hnew c
      | behind hc hv hcs =>
        exact .shift ⟨hmine, hothers, (hcell _).trans hv, fun c hne => (hcell c).trans (hcs c hne)⟩
          (hl.fits_behind hc (hnew _)) fun c _ => hnew c
    · refine .same (fun who' => ?_) fun c => (hcell c).trans (hcells c)
      by_cases hwho : who = who'
      · rw [← hwho, hmine, hpost, hnone]
      · exact hothers who' hwho
  | @resumed who stage v p hstep hst hrun hset =>
    have hmine : w'.post? who = p.stage?.bind Stage.post? := by rw [post?, hset.mine]
    have hcell : ∀ c, w'.cell c = v.cell c := fun c => by rw [cell, hset.caches, cell]
    have hothers : ∀ who', who ≠ who' → w'.post? who' = w.post? who' := fun who' hne => by
      rw [post?, hset.others who' hne, resume_stages hs hrun who', post?]
    have hpost : w.post? who = stage.post? := by rw [post?, hst]; rfl
    have same : w'.post? who = w.post? who → (∀ c, v.cell c = w.cell c) → Turns w w' := by
      intro hsame hcells
      refine .same (fun who' => ?_) fun c => (hcell c).trans (hcells c)
      by_cases hwho : who = who'
      · rw [← hwho, hsame]
      · exact hothers who' hwho
    cases hload : stage.load? with
    | none =>
      obtain ⟨hcaches, hnone⟩ := resume_beside hload hrun
      refine same ?_ fun c => by rw [cell, hcaches, cell]
      rw [hmine, hnone, hpost, Stage.post?_of_load? hload]
    | some load =>
      have hold := posted hst hload
      cases resume_proceeds hs hload hrun with
      | @on next hn _ hp hc =>
        rcases hp with hp | ⟨rfl, ho⟩
        · exact same (by rw [hmine, hpost, hp]; exact hn) hc
        · exact .shift ⟨hmine.trans hn, hothers, (hcell _).trans (hc _),
            fun c _ => (hcell c).trans (hc c)⟩ (hl.fits_owner ho) hold
      | served _ hc hv =>
        exact .shift ⟨hmine, hothers, (hcell _).trans (hv ▸ hc),
          fun c _ => (hcell c).trans (hv ▸ rfl)⟩
          (fits_loaded fun x hx => by simp [hc, Cell.owner?] at hx) hold
      | failed hp _ hc hcs =>
        have ho : (w.cell load.cluster).owner? = some who := hk.loads (hpost.trans hp)
        exact .shift ⟨hmine, hothers, (hcell _).trans (hc.trans (Cell.handOver_of_owner? ho)),
          fun c hne => (hcell c).trans (hcs c hne)⟩ (hl.fits_leave who load.cluster) hold
      | loaded hp hc hcs =>
        exact .shift ⟨hmine, hothers, (hcell _).trans hc, fun c hne => (hcell c).trans (hcs c hne)⟩
          (fits_loaded fun x hx => Option.some.inj ((hk.loads (hpost.trans hp)).symm.trans hx)) hold
  | @dropped who stage hd hst hmine hothers hc =>
    have hnone : w'.post? who = none := by rw [post?, hmine]; rfl
    have hothers : ∀ who', who ≠ who' → w'.post? who' = w.post? who' := fun who' hne => by
      rw [post?, hothers who' hne, post?]
    have hcell : ∀ c, w'.cell c =
        if stage.load?.any (·.cluster = c) then (w.cell c).leave who else w.cell c :=
      fun c => (hc c).trans (abandon_cell w who stage c)
    cases hload : stage.load? with
    | none =>
      refine .same (fun who' => ?_) fun c => by rw [hcell, hload]; rfl
      by_cases hwho : who = who'
      · rw [← hwho, hnone, post?, hst]
        exact (Stage.post?_of_load? hload).symm
      · exact hothers who' hwho
    | some load =>
      rw [hload] at hcell
      exact .shift ⟨hnone, hothers, (hcell _).trans (if_pos (by simp)),
        fun c hne => (hcell c).trans (if_neg (by simpa using hne))⟩ (hl.fits_leave who load.cluster)
        (posted hst hload)
  | apart hstages hc => exact .same (fun who => post?_of_clear (hstages who)) hc

theorem Lined.move (hl : w.Lined) (hs : Supervised w) (hp : w.Proper) (hk : w.Kept)
    (hm : w.move setup m = some w') : w'.Lined := by
  cases move_turns hs hp hk hl hm with
  | same hp hc => exact hl.same hp hc
  | shift s hf hold => exact hl.shift s hf hold

/-- A cluster that is loaded stays so. -/
theorem loaded_of_move (hl : w.Lined) (hs : Supervised w) (hp : w.Proper) (hk : w.Kept)
    (hm : w.move setup m = some w') (hc : w.cell c = .loaded) : w'.cell c = .loaded := by
  cases move_turns hs hp hk hl hm with
  | same _ hcell => exact (hcell c).trans hc
  | @shift who post c' cell s hf hold =>
    by_cases hne : c' = c
    · subst hne
      exact s.cell.trans (hf.loaded hc)
    · exact (s.cells c hne).trans hc

/-- Whoever owns a cell owns it as long as it waits. -/
theorem owner_of_move (hl : w.Lined) (hs : Supervised w) (hp : w.Proper) (hk : w.Kept)
    (hm : w.move setup m = some w') (ho : (w.cell c).owner? = some who)
    (hw : w'.post? who = some (.waits c)) : (w'.cell c).owner? = some who := by
  cases move_turns hs hp hk hl hm with
  | same _ hcell => rwa [hcell c]
  | @shift who' post c' cell s hf hold =>
    by_cases hne : c' = c
    · subst hne
      rcases hf.owned who ho with hstays | ⟨rfl, hpost⟩
      · rwa [s.cell]
      · exact absurd (s.mine.symm.trans hw) (hpost c')
    · rwa [s.cells c hne]

end World

namespace Fleet

variable {setups : Nat → Setup} {f g : Fleet} {i : Nat} {w v : World} {c : String}

/-- What a move keeps of a client that is in order, a run keeps. -/
theorem Reaches.carries {P : World → Prop} (hr : Reaches setups f g) (hf : Reachable setups f)
    (hstore : ∀ w store, P w → P { w with store })
    (hmove : ∀ k w w' m, w.Supervised → w.Kept → w.Proper → P w →
      w.move (setups k) m = some w' → P w')
    (h : ∀ u, f.world? i = some u → P u) (hv : g.world? i = some v) : P v := by
  have hall : (v.Supervised ∧ v.Kept ∧ v.Proper) ∧ P v := by
    refine hr.keeps (P := fun v => (v.Supervised ∧ v.Kept ∧ v.Proper) ∧ P v)
      (fun w store h => ?_) (fun k w w' m h hm => ?_) (fun u hu => ?_) hv
    · obtain ⟨⟨hs, hk, hp⟩, hP⟩ := h
      exact ⟨⟨hs.rests (.quiet rfl rfl rfl rfl rfl), hk.same rfl rfl fun who => by cases who <;> rfl,
        hp⟩, hstore w store hP⟩
    · obtain ⟨⟨hs, hk, hp⟩, hP⟩ := h
      have hhappens := World.move_happens hs hp hm
      exact ⟨⟨hs.move hm, hk.happens hs hhappens, hp.happens hhappens⟩, hmove k w w' m hs hk hp hP hm⟩
    · exact ⟨⟨.of_reachable hf hu, kept_of_reachable hf hu⟩, h u hu⟩
  exact hall.2

/-- What holds of those who look clusters up. -/
theorem lined_of_reachable (hf : Reachable setups f) (hw : f.world? i = some w) : w.Lined := by
  obtain ⟨store, n, hs, hr⟩ := hf
  exact hr.carries ⟨store, n, hs, .refl⟩
    (fun w store h => h.same (fun who => by cases who <;> rfl) fun _ => rfl)
    (fun k w w' m hs hk hp h hm => h.move hs hp hk hm) (fun u hu => world?_start hu ▸ .fresh store) hw

/-- A cluster that is loaded stays so, whatever moves are made. -/
theorem Reaches.loaded (hr : Reaches setups f g) (hf : Reachable setups f)
    (hw : f.world? i = some w) (hc : w.cell c = .loaded) (hv : g.world? i = some v) :
    v.cell c = .loaded := by
  have h : v.Lined ∧ v.cell c = .loaded := by
    refine hr.carries (P := fun v => v.Lined ∧ v.cell c = .loaded) hf (fun w store h => ?_)
      (fun k w w' m hs hk hp h hm => ?_) (fun u hu => ?_) hv
    · exact ⟨h.1.same (fun who => by cases who <;> rfl) fun _ => rfl, h.2⟩
    · exact ⟨h.1.move hs hp hk hm, World.loaded_of_move h.1 hs hp hk hm h.2⟩
    · cases hw.symm.trans hu
      exact ⟨lined_of_reachable hf hu, hc⟩
  exact h.2

end Fleet

end Muster
