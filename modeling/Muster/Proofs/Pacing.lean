import Muster.Proofs.Budgets
import Muster.Proofs.Rounding
import Muster.Proofs.Settings

/-!
# Pacing

The intervals of a restart policy. Below `2 ^ 50` nanoseconds the next one is told by whole numbers
(`grownInterval_eq`): rounding moves neither the comparison with the longest interval nor the
product. So whatever is asked of a backoff, its interval stays between the first and the longest one
(`Backoff.Paced`). A policy sets no limit to the time in all, so there is always another wait, and
the tasks that follow it do not fail for want of one (`RestartPolicy.retries_keep`).
-/
namespace Muster

/-! ## One interval -/

section

open Binary64

variable {longest nanos : Nat}

/-- Two thirds of a whole number are rounded to the side of every whole number that they are on. -/
theorem Binary64.le_iff_of_two_thirds {limit current : Binary64} (hcurrent : current.value = nanos)
    (hnear : |limit.value - longest * (2 / 3)| ≤ 1 / 16)
    (hexact : ∀ k : Nat, (longest : ℚ) * (2 / 3) = k * 2 ^ (-3 : Int) →
      limit.value = longest * (2 / 3)) :
    limit.le current = true ↔ 2 * longest ≤ 3 * nanos := by
  obtain ⟨hlow, hhigh⟩ := abs_le.1 hnear
  rw [Binary64.le_iff, hcurrent]
  -- Unless both are equal they are a third apart at least, and rounding moves less than that.
  rcases Nat.lt_trichotomy (2 * longest) (3 * nanos) with hlt | heq | hgt
  · have hlt' : (2 * longest + 1 : ℚ) ≤ 3 * nanos := mod_cast hlt
    refine iff_of_true ?_ hlt.le
    linarith
  · have heq' : (2 * longest : ℚ) = 3 * nanos := mod_cast heq
    have hlimit := hexact (8 * nanos) (by push_cast; norm_num; linarith)
    refine iff_of_true ?_ heq.le
    linarith
  · have hgt' : (3 * nanos + 1 : ℚ) ≤ 2 * longest := mod_cast hgt
    refine iff_of_false (not_le.2 ?_) hgt.not_ge
    linarith

/-- The next interval: the longest one from two thirds of it on, else half as long again, cut to
whole nanoseconds. -/
theorem grownInterval_eq (hlongest : longest < 2 ^ 50) (hnanos : nanos < 2 ^ 50) :
    grownInterval longest nanos =
      if 2 * longest ≤ 3 * nanos then longest else 3 * nanos / 2 := by
  obtain ⟨current, hcurrent, hvalue⟩ := exists_ofQuotient?_eq (n := nanos) (by omega)
  obtain ⟨top, htop, hvalue'⟩ := exists_ofQuotient?_eq (n := longest) (by omega)
  have hnonneg : (0 : ℚ) ≤ longest := Nat.cast_nonneg longest
  have hlt : (longest : ℚ) < 2 ^ (50 : Int) := mod_cast hlongest
  obtain ⟨limit, hlimit, hnear, hexact⟩ := top.scale?_of_lt 2
    (show 0 < 3 by decide) (p := 50) (by decide) (by decide) (by rw [hvalue']; push_cast; linarith)
  rw [hvalue'] at hnear hexact
  have hle : limit.le current = true ↔ 2 * longest ≤ 3 * nanos :=
    le_iff_of_two_thirds hvalue (hnear.trans_eq (by norm_num)) fun k hk => by
      simpa using hexact k (by simpa using hk)
  simp only [grownInterval, hcurrent, htop, Option.bind_eq_bind, Option.bind_some, hlimit]
  split
  · next h => rw [if_pos (hle.1 h), Option.getD_none]
  · next h =>
    have hshort : 3 * nanos < 2 * longest := not_le.1 (mt hle.2 h)
    have hshort' : (3 * nanos : ℚ) < 2 * longest := mod_cast hshort
    obtain ⟨next, hnext, -, hexact⟩ := current.scale?_of_lt 3
      (show 0 < 2 by decide) (p := 50) (by decide) (by decide) (by rw [hvalue]; push_cast; linarith)
    -- A half is a number of eighths, so nothing is lost before the cut.
    have hnext' : next.value = ((3 * nanos : Nat) : ℚ) / (2 : Nat) := by
      rw [hexact (12 * nanos) (by rw [hvalue]; push_cast; norm_num; ring), hvalue]
      push_cast
      ring
    rw [if_neg hshort.not_ge, hnext, Option.bind_some, Option.getD_some, floor_eq, hnext',
      Nat.floor_div_eq_div]

end

/-! ## What a source may say -/

/-- The setting that is read second cannot undercut the first, whichever of them is there. -/
theorem RestartPolicy.initial_le_longest {src : Source} {p : RestartPolicy}
    (h : ofSource src = .ok p) : p.initial.nanos ≤ p.longest.nanos := by
  obtain ⟨initial, -, h⟩ := exists_of_bind_eq_ok h
  obtain ⟨longest, -, h⟩ := exists_of_bind_eq_ok h
  obtain ⟨attempts, -, h⟩ := exists_of_bind_eq_ok h
  cases h
  exact Nat.le_max_right ..

/-! ## Many intervals -/

namespace Backoff

/-- What is asked of a backoff: a wait, so long after the last reset, or a reset. -/
inductive Request where
  | wait (elapsed : Nat) (draw : Duration → Nat)
  | reset

def obey (b : Backoff) : Request → Backoff
  | .wait elapsed draw => (b.wait elapsed draw).2
  | .reset => b.reset

def run (b : Backoff) (rs : List Request) : Backoff := rs.foldl obey b

theorem run_append (b : Backoff) (rs rs' : List Request) :
    b.run (rs ++ rs') = (b.run rs).run rs' := List.foldl_append

/-- The state of a policy between its bounds. -/
structure Paced (p : RestartPolicy) (b : Backoff) : Prop where
  policy : b.policy = p
  unlimited : b.patience = none
  low : p.initial.nanos ≤ b.current.nanos
  high : b.current.nanos ≤ p.longest.nanos

namespace Paced

variable {p : RestartPolicy} {b : Backoff}

theorem start (hp : p.initial.nanos ≤ p.longest.nanos) : Paced p (ofPolicy p) :=
  ⟨rfl, rfl, Nat.le_refl _, hp⟩

theorem reset_eq (h : Paced p b) : b.reset = ofPolicy p := by
  rw [Backoff.reset, h.policy, h.unlimited]
  rfl

/-- There is always a wait. -/
theorem wait_eq (h : Paced p b) (elapsed : Nat) (draw : Duration → Nat) :
    b.wait elapsed draw = (some (draw b.current), b.next.2) := by
  rw [wait, h.unlimited]

theorem next_eq (h : Paced p b) (hlong : p.longest.nanos < 2 ^ 50) :
    b.next.2 = { b with current := ⟨if 2 * p.longest.nanos ≤ 3 * b.current.nanos
      then p.longest.nanos else 3 * b.current.nanos / 2⟩ } := by
  rw [next, h.policy, grownInterval_eq hlong (h.high.trans_lt hlong)]

/-- The next interval is not shorter, and still none too long. -/
theorem next (h : Paced p b) (hlong : p.longest.nanos < 2 ^ 50) :
    Paced p b.next.2 ∧ b.current.nanos ≤ b.next.2.current.nanos := by
  obtain ⟨hpolicy, hunlimited, hlow, hhigh⟩ := h
  have hgrows : b.current.nanos ≤ b.next.2.current.nanos ∧
      b.next.2.current.nanos ≤ p.longest.nanos := by
    rw [next_eq ⟨hpolicy, hunlimited, hlow, hhigh⟩ hlong]
    dsimp only
    split <;> omega
  exact ⟨⟨hpolicy, hunlimited, hlow.trans hgrows.1, hgrows.2⟩, hgrows.1⟩

theorem obey (h : Paced p b) (hlong : p.longest.nanos < 2 ^ 50) (r : Request) :
    Paced p (b.obey r) ∧ (r ≠ .reset → b.current.nanos ≤ (b.obey r).current.nanos) := by
  cases r with
  | wait elapsed draw =>
    rw [Backoff.obey, h.wait_eq]
    exact (h.next hlong).imp_right fun hle _ => hle
  | reset =>
    rw [Backoff.obey, h.reset_eq]
    exact ⟨.start (h.low.trans h.high), fun hne => absurd rfl hne⟩

/-- However long it is in use, a backoff stays between the bounds, and without a reset no interval
is shorter than one before. -/
theorem run (h : Paced p b) (hlong : p.longest.nanos < 2 ^ 50) (rs : List Request) :
    Paced p (b.run rs) ∧
      ((∀ r ∈ rs, r ≠ .reset) → b.current.nanos ≤ (b.run rs).current.nanos) := by
  induction rs generalizing b with
  | nil => exact ⟨h, fun _ => Nat.le_refl _⟩
  | cons r rs ih =>
    obtain ⟨hstep, hle⟩ := h.obey hlong r
    obtain ⟨hrun, hle'⟩ := ih hstep
    refine ⟨hrun, fun hrs => ?_⟩
    exact (hle (hrs r List.mem_cons_self)).trans
      (hle' fun r' hr' => hrs r' (List.mem_cons_of_mem _ hr'))

end Paced

/-- What a backoff of a policy keeps to, whatever is asked of it later. -/
structure Keeps (p : RestartPolicy) (b : Backoff) : Prop where
  low : p.initial.nanos ≤ b.current.nanos
  high : b.current.nanos ≤ p.longest.nanos
  /-- A wait is always granted, and drawn around the interval. -/
  granted : ∀ elapsed draw, b.wait elapsed draw = (some (draw b.current), b.next.2)
  grown : b.next.2.current.nanos =
    if 2 * p.longest.nanos ≤ 3 * b.current.nanos then p.longest.nanos
    else 3 * b.current.nanos / 2
  renewed : b.reset.current = p.initial
  /-- Until a reset the interval does not get shorter. -/
  steady : ∀ rs, (∀ r ∈ rs, r ≠ .reset) → b.current.nanos ≤ (b.run rs).current.nanos

theorem Paced.keeps {p : RestartPolicy} {b : Backoff} (h : Paced p b)
    (hlong : p.longest.nanos < 2 ^ 50) : Keeps p b where
  low := h.low
  high := h.high
  granted := h.wait_eq
  grown := by rw [h.next_eq hlong]
  renewed := by rw [h.reset_eq]; rfl
  steady rs := (h.run hlong rs).2

end Backoff

/-! ## Tasks -/

/-- A task has asked its backoff for one wait after each drop since it was last active. -/
theorem Setup.backoff_eq_run (setup : Setup) (n : Nat) :
    setup.backoff n = (Backoff.ofPolicy setup.config.restart).run
      (List.replicate n (.wait 0 Duration.nanos)) := by
  induction n with
  | zero => rfl
  | succ n ih =>
    rw [List.replicate_succ', Backoff.run_append, ← ih]
    simp only [Backoff.run, List.foldl_cons, List.foldl_nil, Backoff.obey, Backoff.wait,
      patience_backoff]
    rfl

/-- Retries keep to the policy. Whatever is asked of a backoff, its interval begins at the first one
and stays between the bounds, grows by half up to the longest one, does not get shorter until a
reset and begins anew with it, and every wait is granted. The backoff of a task has been asked for
one wait after each drop since the last reset, so a task fails on a protocol fault, or on the last
drop that its policy allows, and never for want of a wait. -/
theorem RestartPolicy.retries_keep {src : Source} {p : RestartPolicy} (hp : ofSource src = .ok p)
    (hlong : p.longest.nanos < 2 ^ 50) :
    (Backoff.ofPolicy p).current = p.initial ∧
    (∀ rs, Backoff.Keeps p ((Backoff.ofPolicy p).run rs)) ∧
    ∀ (setups : Nat → Setup) {f : Fleet} {i id : Nat} {w : World} {t : Task},
      (setups i).config.restart = p → Fleet.Reachable setups f → f.world? i = some w →
      w.tasks[id]? = some t →
      (t.position ≠ .ended → t.backoff = (Backoff.ofPolicy p).run
          (List.replicate ((setups i).drops id w.trace) (.wait 0 Duration.nanos)) ∧
        Backoff.Keeps p t.backoff) ∧
      (t.position = .ended → t.cancelled = false → .published id .failed ∈ w.trace) ∧
      ∀ past, .published id .failed :: past <:+ w.trace →
        ∃ m before e, past = m :: before ∧ (setups i).ending? m = some (id, e) ∧
          (e = .fatal ∨ 0 < p.maxAttempts ∧ (setups i).drops id past = p.maxAttempts) := by
  have hstart : Backoff.Paced p (.ofPolicy p) := .start (initial_le_longest hp)
  have hkeeps : ∀ rs, Backoff.Keeps p ((Backoff.ofPolicy p).run rs) := fun rs =>
    (hstart.run hlong rs).1.keeps hlong
  refine ⟨rfl, hkeeps, fun setups {f i id w t} hpolicy hf hw ht => ?_⟩
  have hledger := Fleet.ledger_of_reachable hf hw
  have hacc := hledger.accounts ht
  refine ⟨fun hne => ?_, hacc.failed, fun past hpast => ?_⟩
  · have hback := (hacc.running hne).2.1
    rw [Setup.backoff_eq_run, hpolicy] at hback
    exact ⟨hback, hback ▸ hkeeps _⟩
  · obtain ⟨m, before, e, hm, hends, hv⟩ :=
      Setup.due?_published ((hledger.heeded.suffix hpast).1.2.1 (.inl rfl))
    exact ⟨m, before, e, hm, hends, hpolicy ▸ Setup.verdict_eq_failed.1 hv.symm⟩

/-- The first interval is read as half a second, and the second is not half as long again. A client
with this policy, on a store that cannot be reached, fails at its second drop. -/
theorem RestartPolicy.retries_keep_short :
    let src := Source.ofTable (.ofList [("registry.redis.restart.initial.millis", "0"),
      ("registry.redis.restart.max.millis", "600"), ("registry.redis.restart.max.attempts", "2")])
    let p : RestartPolicy := { longest := .ofMillis 600, maxAttempts := 2 }
    let setups : Nat → Setup := fun _ =>
      { config := { identity := "me@here", restart := p }, source := src }
    ofSource src = .ok p ∧ p.longest.nanos < 2 ^ 50 ∧
    (∀ rs, p.initial.nanos ≤ ((Backoff.ofPolicy p).run rs).current.nanos) ∧
    (Backoff.ofPolicy p).next.2.current.nanos = 600000000 ∧
    ∃ f w t, Fleet.Reachable setups f ∧ f.world? 0 = some w ∧ w.tasks[0]? = some t ∧
      t.position = .ended ∧ ∃ m before e, .published 0 .failed :: m :: before <:+ w.trace ∧
        (setups 0).ending? m = some (0, e) ∧
        (e = .fatal ∨
          0 < p.maxAttempts ∧ (setups 0).drops 0 (m :: before) = p.maxAttempts) := by
  intro src p setups
  have hp : ofSource src = .ok p := rfl
  have hlong : p.longest.nanos < 2 ^ 50 := by decide
  obtain ⟨-, hkeeps, htasks⟩ := retries_keep hp hlong
  obtain ⟨f, w, hf, hw, hend⟩ := Fleet.exists_of_run setups .usual 1 0
    [(0, .ask 0 (.setUnavailable true)), (0, .ask 1 (.attach "c" "l")), (0, .step (.task 0)),
      (0, .elapse 500000000), (0, .step (.task 0)), (0, .step (.task 0))]
    (fun w => (w.tasks[0]?).any fun t => t.isEnded && !t.cancelled) rfl (by decide +kernel)
  obtain ⟨t, ht, hend⟩ := (Option.any_eq_true _ _).1 hend
  simp only [Bool.and_eq_true, Bool.not_eq_true'] at hend
  have hended : t.position = .ended := Task.isEnded_iff.1 hend.1
  obtain ⟨-, hgone, honly⟩ := htasks setups rfl hf hw ht
  obtain ⟨later, past, hpast⟩ := List.append_of_mem (hgone hended hend.2)
  have hsuffix : .published 0 .failed :: past <:+ w.trace := ⟨later, hpast.symm⟩
  obtain ⟨m, before, e, rfl, hends, hlast⟩ := honly past hsuffix
  have hsecond : ((Backoff.ofPolicy p).run []).next.2.current.nanos = 600000000 :=
    (hkeeps []).grown.trans (by decide)
  exact ⟨hp, hlong, fun rs => (hkeeps rs).low, hsecond, f, w, t, hf, hw, ht, hended, m, before, e,
    hsuffix, hends, hlast⟩

end Muster
