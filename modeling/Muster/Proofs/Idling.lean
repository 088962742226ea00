import Muster.Proofs.Lending

/-!
# How many connections are idle

A connection that is given back, or that an eviction run puts back, is kept only if there is room.
The new connections of an eviction run are counted once, before the first of them is opened, and
then laid down without another look: what others give back meanwhile comes on top. So the idle
connections can be more than the configuration says, but only in such a step (`Overfills`), and
not by more than the callers that refill at the same time may open.
-/
namespace Muster

namespace Pool

variable {p q p₀ : Pool} {id : Nat}

namespace Position

def isRefilling : Position → Bool
  | refilling _ => true
  | _ => false

end Position

/-- How many callers are refilling. -/
def refillers (p : Pool) : Nat := p.callers.countP Position.isRefilling

/-- How many connections the callers are still going to open for the idle list. -/
def arrears (p : Pool) : Nat := p.total Position.missing

/-! ## One step -/

/-- A step that lays nothing down without a look: the idle connections, and those that the caller
is still going to open, are no more than there were, or than there is room for. -/
structure Fits (p : Pool) (id : Nat) (after : Position) (q : Pool) : Prop where
  config : q.config = p.config
  callers : q.callers = p.callers.set id after
  idle : q.idle.length + after.missing ≤ max p.idle.length p.config.effectiveMaxIdle
  sized : after.isRefilling = true → 0 < after.missing ∧ after.missing ≤ p.config.effectiveMinIdle

theorem restored_length (p : Pool) (kept : List Idle) :
    (p.restored kept).length ≤ max p.idle.length p.config.effectiveMaxIdle := by
  simp only [restored, List.length_append, List.length_take]
  omega

theorem effectiveMinIdle_le (c : PoolConfig) : c.effectiveMinIdle ≤ c.effectiveMaxIdle :=
  Nat.min_le_right _ _

/-- What an eviction run puts back has room, and so has what it is going to open. -/
theorem restore_fits (p : Pool) (id : Nat) (kept : List Idle) :
    ∃ after, Fits p id after (p.restore id kept) := by
  have hlen := p.restored_length kept
  have hmin := effectiveMinIdle_le p.config
  rw [restore_eq]
  refine ⟨_, rfl, rfl, ?_, fun hrefill => ?_⟩
  · show (p.restored kept).length + _ ≤ _
    unfold afterExamining
    split
    · exact hlen
    · simp only [Position.missing]
      omega
  · unfold afterExamining at hrefill ⊢
    split
    · next h => simp [h, Position.isRefilling] at hrefill
    · simp only [Position.missing]
      omega

theorem examine_fits (p : Pool) (id : Nat) (kept left : List Idle) :
    ∃ after, Fits p id after (p.examine id kept left) := by
  rcases p.examine_cases id kept left with ⟨gone, c, rest, -, -, -, -, h⟩ | h
  · rw [h]
    exact ⟨.examining c rest kept, rfl, rfl, Nat.le_max_left _ _, by simp [Position.isRefilling]⟩
  · rw [h]
    obtain ⟨after, hfits⟩ :=
      restore_fits (p.close ((left.filter p.isEvictable).reverse.map Idle.conn)) id
        (kept ++ left.filter fun c => !p.isEvictable c)
    exact ⟨after, hfits.config, hfits.callers, hfits.idle, hfits.sized⟩

/-- A caller that does not refill after its step only has to have had room. -/
theorem Fits.of_idle {after : Position} (hconfig : q.config = p.config)
    (hcallers : q.callers = p.callers.set id after) (hafter : after.isRefilling = false)
    (hidle : q.idle.length ≤ max p.idle.length p.config.effectiveMaxIdle) : Fits p id after q := by
  have hmissing : after.missing = 0 := by
    cases after <;> simp_all [Position.isRefilling, Position.missing]
  exact ⟨hconfig, hcallers, by rw [hmissing]; exact hidle, by simp [hafter]⟩

theorem keep_fits (p : Pool) (id conn : Nat) (fault : Option Fault) :
    Fits p id (.ended fault) ((p.keep conn).leave id fault) := by
  rcases p.keep_cases conn with ⟨hroom, h⟩ | ⟨-, h⟩
  · rw [h]
    refine .of_idle rfl rfl rfl ?_
    simp only [leave_idle, List.length_append, List.length_singleton]
    omega
  · rw [h]
    exact .of_idle rfl rfl rfl (Nat.le_max_left _ _)

theorem lend_fits (p : Pool) (id : Nat) (purpose : Purpose) :
    ∃ after, Fits p id after (p.lend id purpose) := by
  rcases p.lend_cases id purpose with ⟨-, h⟩ | ⟨-, -, h⟩ | ⟨-, before, i, gone, hidle, -, -, h⟩
  · rw [h]
    exact ⟨_, .of_idle rfl rfl rfl (Nat.le_max_left _ _)⟩
  · rw [h]
    exact ⟨_, .of_idle rfl rfl rfl (Nat.zero_le _)⟩
  · rw [h]
    refine ⟨_, .of_idle rfl rfl (by split <;> rfl) ?_⟩
    simp only [move_idle, hidle, List.length_append, List.length_cons]
    omega

theorem drop_fits (p : Pool) (id : Nat) (position : Position) :
    Fits p id (.ended none) (p.drop id position) := by
  unfold drop
  split <;> exact .of_idle rfl rfl rfl (Nat.le_max_left _ _)

/-- Every step fits, but for one: a caller that refills lays its connection down whatever there
is. -/
theorem CallerStep.fits {position : Position} {s : Signal} (h : CallerStep p id position s q) :
    (∃ after, Fits p id after q) ∨
    ∃ missing conn, position = .refilling missing ∧ s = .connected conn ∧ q.config = p.config ∧
      q.callers = p.callers.set id (afterExamining p.clock (missing - 1)) ∧
      q.idle.length = p.idle.length + 1 := by
  cases h with
  | @refilled missing conn =>
    exact .inr ⟨missing, conn, rfl, rfl, rfl, rfl, by simp⟩
  | granted =>
    obtain ⟨after, hfits⟩ := lend_fits { p with permits := p.permits - 1 } id _
    exact .inl ⟨after, hfits.config, hfits.callers, hfits.idle, hfits.sized⟩
  | passed => exact .inl (examine_fits p id _ _)
  | @unfit c left kept =>
    obtain ⟨after, hfits⟩ := examine_fits (p.condemn c.conn) id kept left
    exact .inl ⟨after, hfits.config, hfits.callers, hfits.idle, hfits.sized⟩
  | released => exact .inl ⟨_, keep_fits p id _ _⟩
  | returned => exact .inl ⟨_, keep_fits p id _ _⟩
  | dropped => exact .inl ⟨_, drop_fits p id _⟩
  | @supplied purpose =>
    exact .inl ⟨_, .of_idle rfl rfl (by cases purpose <;> rfl) (Nat.le_max_left _ _)⟩
  | _ => exact .inl ⟨_, .of_idle rfl rfl rfl (Nat.le_max_left _ _)⟩

/-- A new caller fits, even if it has begun an eviction run. -/
theorem enter_fits (p : Pool) (purpose : Purpose) :
    ∃ position : Position, (p.enter purpose).config = p.config ∧
      (p.enter purpose).callers = p.callers ++ [position] ∧
      (p.enter purpose).idle.length + position.missing ≤
        max p.idle.length p.config.effectiveMaxIdle ∧
      (position.isRefilling = true →
        0 < position.missing ∧ position.missing ≤ p.config.effectiveMinIdle) := by
  rcases p.enter_cases purpose with h | ⟨d, -, -, -, h⟩
  · rw [h]
    exact ⟨.queued purpose p.clock, rfl, rfl, Nat.le_max_left _ _, by simp [Position.isRefilling]⟩
  · rw [h, evict]
    obtain ⟨after, hfits⟩ := examine_fits _ p.callers.length [] _
    refine ⟨after, hfits.config, by simp [hfits.callers], hfits.idle.trans ?_, hfits.sized⟩
    simp only [List.length_drop]
    omega

/-! ## Where the bound is broken -/

/-- A caller lays a new connection down although there is no room. -/
def Overfills (p : Pool) (a : Act) : Prop :=
  ∃ id missing conn, a = .signal id (.connected conn) ∧
    p.callers[id]? = some (.refilling missing) ∧ p.config.effectiveMaxIdle ≤ p.idle.length

theorem Overfills.idle {a : Act} (ho : Overfills p a) (ha : p.act a = some q) :
    p.config.effectiveMaxIdle < q.idle.length := by
  obtain ⟨id, missing, conn, rfl, hpos, hfull⟩ := ho
  obtain ⟨position, hpos', hstep⟩ := step_cases ha
  cases hpos.symm.trans hpos'
  cases hstep
  simp only [move_idle, List.length_append, List.length_singleton]
  omega

theorem act_config {a : Act} (ha : p.act a = some q) : q.config = p.config := by
  cases a with
  | enter purpose =>
    cases ha
    obtain ⟨-, hconfig, -⟩ := p.enter_fits purpose
    exact hconfig
  | elapse nanos =>
    cases ha
    rfl
  | signal id s =>
    obtain ⟨position, -, hstep⟩ := step_cases ha
    rcases hstep.fits with ⟨after, hfits⟩ | ⟨-, -, -, -, hconfig, -⟩
    · exact hfits.config
    · exact hconfig

/-- An act that does not overfill keeps the bound. -/
theorem idle_of_not_overfills {a : Act} (ho : ¬ Overfills p a) (ha : p.act a = some q) :
    q.idle.length ≤ max p.idle.length p.config.effectiveMaxIdle := by
  cases a with
  | enter purpose =>
    cases ha
    obtain ⟨position, -, -, hidle, -⟩ := p.enter_fits purpose
    omega
  | elapse nanos =>
    cases ha
    exact Nat.le_max_left _ _
  | signal id s =>
    obtain ⟨position, hpos, hstep⟩ := step_cases ha
    rcases hstep.fits with ⟨after, hfits⟩ | ⟨missing, conn, rfl, rfl, -, -, hidle⟩
    · have := hfits.idle
      omega
    · have hroom : ¬ p.config.effectiveMaxIdle ≤ p.idle.length :=
        fun hfull => ho ⟨id, missing, conn, rfl, hpos, hfull⟩
      omega

/-! ## How far the bound is broken -/

/-- As long as at most so many callers refill at a time: the idle connections, with those that
are still going to be opened, exceed the bound by what these callers may open. -/
structure Stocked (c : PoolConfig) (k : Nat) (p : Pool) : Prop where
  config : p.config = c
  sized : ∀ position ∈ p.callers, position.isRefilling = true →
    0 < position.missing ∧ position.missing ≤ c.effectiveMinIdle
  bound : p.idle.length + p.arrears ≤ c.effectiveMaxIdle + k * c.effectiveMinIdle

theorem missing_eq_zero {position : Position} (h : position.isRefilling = false) :
    position.missing = 0 := by
  cases position <;> simp_all [Position.isRefilling, Position.missing]

/-- The callers together open no more than each of them may. -/
theorem arrears_le {n : Nat} {l : List Position}
    (h : ∀ position ∈ l, position.isRefilling = true → position.missing ≤ n) :
    (l.map Position.missing).sum ≤ l.countP Position.isRefilling * n := by
  induction l with
  | nil => simp
  | cons position l ih =>
    have hrest := ih fun pos hpos => h pos (List.mem_cons_of_mem _ hpos)
    rw [List.map_cons, List.sum_cons, List.countP_cons]
    cases hr : position.isRefilling with
    | false =>
      rw [missing_eq_zero hr]
      simpa using hrest
    | true =>
      have hone := h position (List.mem_cons_self ..) hr
      simp only [if_true, Nat.add_mul, Nat.one_mul]
      omega

namespace Stocked

variable {c : PoolConfig} {k : Nat}

theorem arrears (h : Stocked c k p) (hk : p.refillers ≤ k) :
    p.arrears ≤ k * c.effectiveMinIdle :=
  (arrears_le fun position hpos hr => (h.sized position hpos hr).2).trans
    (Nat.mul_le_mul_right _ hk)

/-- The callers after a step are those before it, but for one. -/
theorem sized_set (h : Stocked c k p) {after : Position} (hq : q.callers = p.callers.set id after)
    (hafter : after.isRefilling = true →
      0 < after.missing ∧ after.missing ≤ c.effectiveMinIdle) :
    ∀ position ∈ q.callers, position.isRefilling = true →
      0 < position.missing ∧ position.missing ≤ c.effectiveMinIdle := by
  intro position hmem hr
  rw [hq] at hmem
  rcases List.mem_or_eq_of_mem_set hmem with hold | rfl
  · exact h.sized position hold hr
  · exact hafter hr

/-- What fits is bounded by what there was, or by the room and what the others may open. -/
theorem fits (h : Stocked c k p) (hk : p.refillers ≤ k) {before after : Position}
    (hb : p.callers[id]? = some before) (hfits : Fits p id after q) : Stocked c k q := by
  have hsum : q.arrears + before.missing = p.arrears + after.missing :=
    total_set Position.missing hb hfits.callers
  have hothers := h.arrears hk
  have hidle := hfits.idle
  have hbound := h.bound
  have hsized := hfits.sized
  rw [h.config] at hidle hsized
  exact ⟨hfits.config.trans h.config, h.sized_set hfits.callers hsized, by omega⟩

/-- A connection that was missing is idle now. -/
theorem refilled (h : Stocked c k p) {missing : Nat}
    (hb : p.callers[id]? = some (.refilling missing)) (hconfig : q.config = p.config)
    (hcallers : q.callers = p.callers.set id (afterExamining p.clock (missing - 1)))
    (hidle : q.idle.length = p.idle.length + 1) : Stocked c k q := by
  obtain ⟨hpos, hle⟩ := h.sized _ (List.mem_of_getElem? hb) rfl
  simp only [Position.missing] at hpos hle
  have hsum : q.arrears + missing = p.arrears + (afterExamining p.clock (missing - 1)).missing :=
    total_set Position.missing hb hcallers
  have hmissing : (afterExamining p.clock (missing - 1)).missing = missing - 1 := by
    unfold afterExamining
    split
    · next h => simp [Position.missing, h]
    · rfl
  have hbound := h.bound
  refine ⟨hconfig.trans h.config, h.sized_set hcallers fun hr => ?_, by omega⟩
  rw [hmissing]
  refine ⟨?_, by omega⟩
  unfold afterExamining at hr
  split at hr
  · cases hr
  · omega

theorem enter (h : Stocked c k p) (hk : p.refillers ≤ k) (purpose : Purpose) :
    Stocked c k (p.enter purpose) := by
  obtain ⟨position, hconfig, hcallers, hidle, hsized⟩ := p.enter_fits purpose
  have hsum : (p.enter purpose).arrears = p.arrears + position.missing :=
    total_append Position.missing hcallers
  have hothers := h.arrears hk
  have hbound := h.bound
  rw [h.config] at hidle hsized
  refine ⟨hconfig.trans h.config, fun pos hmem hr => ?_, by omega⟩
  rw [hcallers] at hmem
  rcases List.mem_append.1 hmem with hold | hnew
  · exact h.sized pos hold hr
  · cases List.mem_singleton.1 hnew
    exact hsized hr

theorem act (h : Stocked c k p) (hk : p.refillers ≤ k) {a : Act} (ha : p.act a = some q) :
    Stocked c k q := by
  cases a with
  | enter purpose =>
    cases ha
    exact h.enter hk purpose
  | elapse nanos =>
    cases ha
    exact ⟨h.config, h.sized, h.bound⟩
  | signal id s =>
    obtain ⟨position, hpos, hstep⟩ := step_cases ha
    rcases hstep.fits with ⟨after, hfits⟩ | ⟨missing, conn, rfl, -, hconfig, hcallers, hidle⟩
    · exact h.fits hk hpos hfits
    · exact h.refilled hpos hconfig hcallers hidle

theorem fresh (h₀ : ofConfig? c = some p₀) (k : Nat) : Stocked c k p₀ := by
  rw [ofConfig?_eq h₀]
  exact ⟨rfl, by simp, Nat.zero_le _⟩

end Stocked

/-- In a run in which nobody overfills, the idle connections are no more than the configuration
says, and from there only somebody who overfills breaks the bound. If at most `k` callers refill at
a time, the idle connections and those that are still going to be opened exceed it by `k` times the
least number at most; so it is never broken if that number is zero. -/
theorem idle_bounded {c : PoolConfig} (h₀ : ofConfig? c = some p₀) :
    (∀ p, Reaches (fun q a => ¬ Overfills q a) p₀ p → p.idle.length ≤ c.effectiveMaxIdle) ∧
      (∀ p a q, Reachable c p → p.idle.length ≤ c.effectiveMaxIdle → p.act a = some q →
        (c.effectiveMaxIdle < q.idle.length ↔ Overfills p a)) ∧
      (∀ k p, Reaches (fun q _ => q.refillers ≤ k) p₀ p →
        p.idle.length + p.arrears ≤ c.effectiveMaxIdle + k * c.effectiveMinIdle) ∧
      (c.effectiveMinIdle = 0 → ∀ p, Reachable c p → p.idle.length ≤ c.effectiveMaxIdle) := by
  have hconfig : ∀ {ok p}, Reaches ok p₀ p → p.config = c := fun hp =>
    hp.keeps (P := fun p => p.config = c) (fun _ _ _ hq _ ha => (act_config ha).trans hq)
      (Stocked.fresh h₀ 0).config
  refine ⟨fun p hp => ?_, fun p a q hp hle ha => ?_, fun k p hp => ?_, fun hmin p hp => ?_⟩
  · refine (hp.keeps (P := fun p => p.config = c ∧ p.idle.length ≤ c.effectiveMaxIdle)
      (fun q r a hq ho ha => ?_) ⟨(Stocked.fresh h₀ 0).config, ?_⟩).2
    · have hidle := idle_of_not_overfills ho ha
      rw [hq.1] at hidle
      exact ⟨(act_config ha).trans hq.1, hidle.trans (max_le hq.2 le_rfl)⟩
    · rw [ofConfig?_eq h₀]
      exact Nat.zero_le _
  · obtain ⟨p₁, h₁, hr⟩ := hp
    cases h₀.symm.trans h₁
    have hc := hconfig hr
    refine ⟨fun hover => ?_, fun ho => hc ▸ ho.idle ha⟩
    by_contra ho
    have hidle := idle_of_not_overfills ho ha
    rw [hc] at hidle
    omega
  · exact (hp.keeps (fun _ _ _ hq hk ha => hq.act hk ha) (Stocked.fresh h₀ k)).bound
  · obtain ⟨p₁, h₁, hr⟩ := hp
    cases h₀.symm.trans h₁
    have hnone : ∀ q, Stocked c 0 q → q.refillers ≤ 0 := by
      intro q hq
      rw [refillers, Nat.le_zero, List.countP_eq_zero]
      intro position hpos hr
      have := hq.sized position hpos hr
      omega
    have hbound := (hr.keeps (fun q _ _ hq _ ha => hq.act (hnone q hq) ha)
      (Stocked.fresh h₀ 0)).bound
    omega

/-- A pool with one idle connection at least and at most. -/
def narrow : PoolConfig :=
  { maxTotal := some 2, maxIdle := some 1, minIdle := some 1,
    evictionInterval := some (.ofSeconds 1 0) }

/-- A command runs; another caller makes an eviction run, finds no idle connection and goes to open
one; before it is open the command is done and gives its connection back. -/
def returnMeanwhile : List Act :=
  [.enter .command, .signal 0 .granted, .signal 0 (.connected 0), .elapse 1000000000,
    .enter .command, .signal 0 .succeeded, .signal 1 (.connected 1)]

/-- The bound of a single caller that refills is met exactly. -/
theorem idle_bounded_tight : ∃ p₀ p, ofConfig? narrow = some p₀ ∧
    Reaches (fun q _ => q.refillers ≤ 1) p₀ p ∧ p.idle.length = 2 ∧
    p.idle.length + p.arrears ≤ narrow.effectiveMaxIdle + 1 * narrow.effectiveMinIdle := by
  obtain ⟨p₀, p, h₀, hp, hidle⟩ := exists_of_run (fun q _ => q.refillers ≤ 1) narrow
    returnMeanwhile (fun p => p.idle.length == 2) (by decide +kernel)
  exact ⟨p₀, p, h₀, hp, by simpa using hidle, (idle_bounded h₀).2.2.1 1 p hp⟩

/-- More connections are idle than there may be. -/
theorem idle_overfilled : ∃ p, Reachable narrow p ∧ narrow.effectiveMaxIdle < p.idle.length := by
  obtain ⟨p₀, p, h₀, hp, hidle⟩ := exists_of_run (fun _ _ => True) narrow
    returnMeanwhile (fun p => p.idle.length == 2) (by decide +kernel)
  have htwo : p.idle.length = 2 := by simpa using hidle
  refine ⟨p, ⟨p₀, h₀, hp⟩, ?_⟩
  rw [htwo]
  decide

end Pool

end Muster
