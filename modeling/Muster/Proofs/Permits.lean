import Muster.Proofs.Lending

/-!
# Permits

Permits are never lost and never made up: those that are free and those that callers hold are
always as many as the configuration says. One step of a caller takes or gives back what the caller
itself then has more or less, and touches no other caller (`CallerStep.balanced`).
-/
namespace Muster

namespace Pool

namespace Position

/-- A connection is leased to the caller. -/
def isLease : Position → Bool
  | running _ => true
  | _ => false

/-- The caller holds an open subscription stream. -/
def isStream : Position → Bool
  | streaming _ => true
  | _ => false

/-- The caller has its permit, but neither a lease nor a stream: it gets a connection ready, or is
about to give one back. -/
def isBetween (pos : Position) : Bool := pos.holdsPermit && !pos.isLease && !pos.isStream

/-- How many permits a caller at this position holds. -/
def permits (pos : Position) : Nat := pos.holdsPermit.toNat

theorem permits_of_isEnded {pos : Position} (h : pos.isEnded = true) : pos.permits = 0 := by
  cases pos <;> simp_all [isEnded, permits, holdsPermit]

@[simp] theorem permits_afterExamining (clock missing : Nat) :
    (afterExamining clock missing).permits = 0 := by
  unfold afterExamining
  split <;> rfl

end Position

variable {p q : Pool} {id : Nat}

/-! ## One step -/

/-- A step of one caller: it stands somewhere else, and what it holds more or less is missing from
the free permits, or added to them. -/
structure Balanced (p : Pool) (id : Nat) (before after : Position) (q : Pool) : Prop where
  config : q.config = p.config
  callers : q.callers = p.callers.set id after
  permits : q.permits + after.permits = p.permits + before.permits

/-- A caller that goes on in an eviction run neither takes nor gives a permit. -/
theorem examine_frame (p : Pool) (id : Nat) (kept left : List Idle) :
    (p.examine id kept left).config = p.config ∧
      (p.examine id kept left).permits = p.permits ∧
      ∃ after : Position, after.permits = 0 ∧
        (p.examine id kept left).callers = p.callers.set id after := by
  rcases p.examine_cases id kept left with ⟨gone, c, rest, -, -, -, -, h⟩ | h
  · rw [h]
    exact ⟨rfl, rfl, .examining c rest kept, rfl, rfl⟩
  · rw [h, restore_eq]
    exact ⟨rfl, rfl, _, Position.permits_afterExamining _ _, rfl⟩

theorem examine_balanced (p : Pool) (id : Nat) {before : Position} (hb : before.permits = 0)
    (kept left : List Idle) : ∃ after, Balanced p id before after (p.examine id kept left) := by
  obtain ⟨hconfig, hpermits, after, hnone, hcallers⟩ := p.examine_frame id kept left
  exact ⟨after, hconfig, hcallers, by rw [hpermits, hnone, hb]⟩

/-- A caller that was granted a permit holds it. -/
theorem lend_balanced (hfree : 0 < p.permits) {purpose : Purpose} {since : Nat} :
    ∃ after, Balanced p id (.queued purpose since) after
      ({ p with permits := p.permits - 1 }.lend id purpose) := by
  have hone : p.permits - 1 + 1 = p.permits := Nat.sub_add_cancel hfree
  rcases Pool.lend_cases { p with permits := p.permits - 1 } id purpose with
    ⟨-, h⟩ | ⟨-, -, h⟩ | ⟨-, before, i, gone, -, -, -, h⟩
  · rw [h]
    exact ⟨_, rfl, rfl, hone⟩
  · rw [h]
    exact ⟨_, rfl, rfl, hone⟩
  · have hheld : (if p.config.testOnBorrow then Position.testing i.conn
        else .running i.conn).permits = 1 := by
      split <;> rfl
    rw [h]
    refine ⟨_, rfl, rfl, ?_⟩
    rw [hheld]
    exact hone

@[simp] theorem keep_config (p : Pool) (conn : Nat) : (p.keep conn).config = p.config := by
  rcases p.keep_cases conn with ⟨-, h⟩ | ⟨-, h⟩ <;> simp [h]

@[simp] theorem keep_permits (p : Pool) (conn : Nat) : (p.keep conn).permits = p.permits := by
  rcases p.keep_cases conn with ⟨-, h⟩ | ⟨-, h⟩ <;> simp [h]

@[simp] theorem keep_callers (p : Pool) (conn : Nat) : (p.keep conn).callers = p.callers := by
  rcases p.keep_cases conn with ⟨-, h⟩ | ⟨-, h⟩ <;> simp [h]

theorem drop_balanced (p : Pool) (id : Nat) (position : Position) :
    Balanced p id position (.ended none) (p.drop id position) := by
  unfold drop
  split
  · next h => exact ⟨rfl, rfl, by simp [Position.permits, h]; rfl⟩
  · next h => exact ⟨rfl, rfl, by simp [Position.permits, h]; rfl⟩

/-- Whatever a step does, the permits balance. -/
theorem CallerStep.balanced {position : Position} {s : Signal}
    (h : CallerStep p id position s q) : ∃ after, Balanced p id position after q := by
  cases h with
  | granted hfree => exact lend_balanced hfree
  | expired => exact ⟨_, rfl, rfl, rfl⟩
  | refilled => exact ⟨_, rfl, rfl, by simp; rfl⟩
  | @supplied purpose => cases purpose <;> exact ⟨_, rfl, rfl, rfl⟩
  | passed => exact examine_balanced p id rfl _ _
  | tested => exact ⟨_, rfl, rfl, rfl⟩
  | worked => exact ⟨_, rfl, rfl, rfl⟩
  | released => exact ⟨_, by simp, by simp; rfl, by simp; rfl⟩
  | returned => exact ⟨_, by simp, by simp; rfl, by simp; rfl⟩
  | subscribed => exact ⟨_, rfl, rfl, rfl⟩
  | @unfit c left kept =>
    have hnone : (Position.examining c left kept).permits = 0 := rfl
    obtain ⟨after, hb⟩ := examine_balanced (p.condemn c.conn) id hnone kept left
    exact ⟨after, hb.config, hb.callers, hb.permits⟩
  | unfilled => exact ⟨_, rfl, rfl, rfl⟩
  | untested => exact ⟨_, rfl, rfl, rfl⟩
  | unreached => exact ⟨_, rfl, rfl, rfl⟩
  | failed => exact ⟨_, rfl, rfl, rfl⟩
  | unreturned => exact ⟨_, rfl, rfl, rfl⟩
  | rejected => exact ⟨_, rfl, rfl, rfl⟩
  | cut => exact ⟨_, rfl, rfl, rfl⟩
  | dropped => exact ⟨_, drop_balanced p id _⟩

/-- A new caller holds no permit, even if it has begun an eviction run. -/
theorem enter_frame (p : Pool) (purpose : Purpose) :
    (p.enter purpose).config = p.config ∧ (p.enter purpose).permits = p.permits ∧
      ∃ position : Position, position.permits = 0 ∧
        (p.enter purpose).callers = p.callers ++ [position] := by
  rcases p.enter_cases purpose with h | ⟨d, -, -, -, h⟩
  · rw [h]
    exact ⟨rfl, rfl, _, rfl, rfl⟩
  · rw [h, evict]
    obtain ⟨hconfig, hpermits, after, hnone, hcallers⟩ := examine_frame _ p.callers.length [] _
    exact ⟨hconfig, hpermits, after, hnone, by simp [hcallers]⟩

/-! ## Runs -/

/-- How many permits the callers hold. -/
def heldPermits (p : Pool) : Nat := p.total Position.permits

/-- How many connections are handed out. -/
def leases (p : Pool) : Nat := p.callers.countP Position.isLease

/-- How many subscription streams are open. -/
def streams (p : Pool) : Nat := p.callers.countP Position.isStream

/-- How many callers have a permit, but neither a lease nor a stream. -/
def between (p : Pool) : Nat := p.callers.countP Position.isBetween

theorem heldPermits_eq (p : Pool) : p.heldPermits = p.leases + p.streams + p.between := by
  unfold heldPermits total leases streams between
  induction p.callers with
  | nil => rfl
  | cons pos rest ih =>
    simp only [List.map_cons, List.sum_cons, List.countP_cons, ih]
    cases pos <;> simp [Position.permits, Position.holdsPermit, Position.isLease,
      Position.isStream, Position.isBetween] <;> omega

theorem Balanced.total {before after : Position} (h : Balanced p id before after q)
    (hb : p.callers[id]? = some before) :
    q.permits + q.heldPermits = p.permits + p.heldPermits := by
  have hheld : q.heldPermits + before.permits = p.heldPermits + after.permits :=
    total_set Position.permits hb h.callers
  have hfree := h.permits
  omega

/-- Free permits and held permits together are as many as the configuration says. -/
structure Accounted (c : PoolConfig) (p : Pool) : Prop where
  config : p.config = c
  permits : p.permits + p.heldPermits = c.effectiveMaxTotal

theorem Accounted.act {c : PoolConfig} {a : Act} (h : Accounted c p) (ha : p.act a = some q) :
    Accounted c q := by
  cases a with
  | enter purpose =>
    cases ha
    obtain ⟨hconfig, hpermits, position, hnone, hcallers⟩ := p.enter_frame purpose
    refine ⟨hconfig.trans h.config, ?_⟩
    have hheld : (p.enter purpose).heldPermits = p.heldPermits + position.permits :=
      total_append Position.permits hcallers
    rw [hpermits, hheld, hnone, Nat.add_zero, h.permits]
  | signal id s =>
    obtain ⟨position, hpos, hstep⟩ := step_cases ha
    obtain ⟨after, hb⟩ := hstep.balanced
    exact ⟨hb.config.trans h.config, (hb.total hpos).trans h.permits⟩
  | elapse nanos =>
    cases ha
    exact ⟨h.config, h.permits⟩

theorem Reachable.accounted {c : PoolConfig} (h : Reachable c p) : Accounted c p := by
  obtain ⟨p₀, h₀, hr⟩ := h
  refine hr.keeps (fun _ _ _ hq _ ha => hq.act ha) ?_
  rw [ofConfig?_eq h₀]
  exact ⟨rfl, rfl⟩

/-- Free permits, leases, open streams and calls between a permit and a lease or a stream are
always as many as the configuration says; so there are never more leases and streams than that,
and all permits are free when every caller has ended. One step of a caller takes or gives back
just what the caller then holds more or less, and a caller that ended takes no step. -/
theorem permits_conserved {c : PoolConfig} (h : Reachable c p) :
    p.permits + (p.leases + p.streams + p.between) = c.effectiveMaxTotal ∧
      p.leases + p.streams ≤ c.effectiveMaxTotal ∧
      ((∀ position ∈ p.callers, position.isEnded = true) → p.permits = c.effectiveMaxTotal) ∧
      ∀ id s q, p.step id s = some q → ∃ before after, p.callers[id]? = some before ∧
        before.isEnded = false ∧ Balanced p id before after q := by
  have hall := h.accounted.permits
  have hsum := p.heldPermits_eq
  refine ⟨hsum ▸ hall, by omega, fun hended => ?_, fun id s q hs => ?_⟩
  · have hnone : p.heldPermits = 0 := by
      refine List.sum_eq_zero_iff_forall_eq_nat.2 fun n hn => ?_
      obtain ⟨position, hmem, rfl⟩ := List.mem_map.1 hn
      exact Position.permits_of_isEnded (hended position hmem)
    omega
  · obtain ⟨before, hb, hstep⟩ := step_cases hs
    obtain ⟨after, hbal⟩ := hstep.balanced
    exact ⟨before, after, hb, hstep.not_ended, hbal⟩

/-- Two permits: a command loses its connection in the test on return, a subscription is open, and
a third caller has waited too long. -/
theorem permits_conserved_failing : ∃ c p, Reachable c p ∧ p.streams = 1 ∧ p.callers.length = 3 ∧
    p.permits + (p.leases + p.streams + p.between) = c.effectiveMaxTotal := by
  obtain ⟨p₀, p, h₀, hp, hrun⟩ := exists_of_run (fun _ _ => True)
    { maxTotal := some 2, maxWait := some (.ofSeconds 5 0), testOnReturn := true }
    [.enter .command, .enter .subscription, .enter .command, .signal 0 .granted,
      .signal 1 .granted, .signal 0 (.connected 0), .elapse 5000000000, .signal 2 .expired,
      .signal 0 .succeeded, .signal 0 .failed, .signal 1 (.connected 1), .signal 1 .succeeded]
    (fun p => p.streams == 1 && p.callers.length == 3 && p.permits == 1)
    (by decide +kernel)
  simp only [Bool.and_eq_true, beq_iff_eq] at hrun
  exact ⟨_, p, ⟨p₀, h₀, hp⟩, hrun.1.1, hrun.1.2, (permits_conserved ⟨p₀, h₀, hp⟩).1⟩

end Pool

end Muster
