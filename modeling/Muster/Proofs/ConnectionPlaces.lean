import Muster.Proofs.Permits
import Mathlib.Algebra.BigOperators.Group.List.Basic
import Mathlib.Data.List.Nodup

/-!
# Where connections are

Each connection of the pool is idle, taken out by an eviction run, leased to one caller, or closed.
One step of a caller moves connections between these places and loses none (`CallerStep.carries`);
a new one comes only with the signal that it is open. So a connection is always at one place
(`Owned`), and one that was closed, as everything is on which something fails, never leaves it.
-/
namespace Muster

namespace Pool

namespace Position

/-- The connection that a caller with a permit has to itself. -/
def lease : Position → List Nat
  | testing conn | running conn | returning conn | subscribing conn | streaming conn => [conn]
  | _ => []

/-- The connection on which the caller waits for an answer. -/
def tried? : Position → Option Nat
  | examining c _ _ => some c.conn
  | testing conn | running conn | returning conn | subscribing conn | streaming conn => some conn
  | _ => none

end Position

/-- The connection that comes with a signal. -/
def Signal.opened : Signal → List Nat
  | connected conn => [conn]
  | _ => []

namespace Position

theorem conns_eq (pos : Position) : pos.conns = pos.batch.map Idle.conn ++ pos.lease := by
  cases pos <;> simp [conns, batch, lease]

@[simp] theorem conns_afterExamining (clock missing : Nat) :
    (afterExamining clock missing).conns = [] := by
  unfold afterExamining
  split <;> rfl

end Position

variable {p q p₀ : Pool} {id : Nat}

/-! ## One step -/

/-- How often a connection is idle or closed. -/
def unheld (p : Pool) (x : Nat) : Nat := (p.idle.map Idle.conn).count x + p.closed.count x

/-- A step of one caller: each connection that was idle, closed or held by the caller still is, and
so is the one that the caller was given. What is closed stays closed. -/
structure Carries (p : Pool) (id : Nat) (before after : Position) (new : List Nat) (q : Pool) :
    Prop where
  callers : q.callers = p.callers.set id after
  conns : ∀ x, q.unheld x + after.conns.count x = p.unheld x + before.conns.count x + new.count x
  closed : p.closed ⊆ q.closed

theorem count_filter_not (f : Idle → Bool) (l : List Idle) (x : Nat) :
    ((l.filter f).map Idle.conn).count x + ((l.filter fun i => !f i).map Idle.conn).count x =
      (l.map Idle.conn).count x := by
  rw [← List.count_append, ← List.map_append]
  exact ((List.filter_append_perm f l).map Idle.conn).count_eq x

@[simp] theorem move_unheld (pos : Position) (x : Nat) : (p.move id pos).unheld x = p.unheld x :=
  rfl

@[simp] theorem close_unheld (p : Pool) (conns : List Nat) (x : Nat) :
    (p.close conns).unheld x = p.unheld x + conns.count x := by
  simp only [unheld, close_idle, close_closed, List.count_append]
  omega

@[simp] theorem condemn_unheld (p : Pool) (conn x : Nat) :
    (p.condemn conn).unheld x = p.unheld x + [conn].count x := p.close_unheld [conn] x

@[simp] theorem leave_unheld (fault : Option Fault) (x : Nat) :
    (p.leave id fault).unheld x = p.unheld x := rfl

@[simp] theorem keep_unheld (p : Pool) (conn x : Nat) :
    (p.keep conn).unheld x = p.unheld x + [conn].count x := by
  rcases p.keep_cases conn with ⟨-, h⟩ | ⟨-, h⟩
  · simp only [h, unheld, List.map_append, List.map_cons, List.map_nil, List.count_append]
    omega
  · rw [h, close_unheld]

/-- What an eviction run kept is idle again, or closed. -/
@[simp] theorem restore_unheld (p : Pool) (id : Nat) (kept : List Idle) (x : Nat) :
    (p.restore id kept).unheld x = p.unheld x + (kept.map Idle.conn).count x := by
  have hsplit := congrArg (fun l : List Idle => (l.map Idle.conn).count x)
    (List.take_append_drop (p.config.effectiveMaxIdle - p.idle.length) kept)
  simp only [List.map_append, List.count_append] at hsplit
  simp only [restore_eq, unheld, restored, surplus, move_idle, move_closed, close_closed,
    List.map_append, List.count_append]
  omega

theorem keep_closed (p : Pool) (conn : Nat) : p.closed ⊆ (p.keep conn).closed := by
  rcases p.keep_cases conn with ⟨-, h⟩ | ⟨-, h⟩
  · rw [h]
    exact List.Subset.refl _
  · rw [h]
    exact List.subset_append_right _ _

theorem examine_carries (p : Pool) (id : Nat) (kept left : List Idle) :
    ∃ after, (p.examine id kept left).callers = p.callers.set id after ∧
      (∀ x, (p.examine id kept left).unheld x + after.conns.count x =
        p.unheld x + ((kept ++ left).map Idle.conn).count x) ∧
      p.closed ⊆ (p.examine id kept left).closed := by
  rcases p.examine_cases id kept left with ⟨gone, c, rest, rfl, -, -, -, h⟩ | h
  · rw [h]
    refine ⟨.examining c rest kept, rfl, fun x => ?_, List.subset_append_right _ _⟩
    simp only [move_unheld, close_unheld, Position.conns_eq, Position.batch, Position.lease,
      List.append_nil, List.map_append, List.map_reverse, List.count_append, List.count_reverse]
    omega
  · rw [h]
    refine ⟨_, by rw [restore_eq]; rfl, fun x => ?_, ?_⟩
    · have hsplit := count_filter_not p.isEvictable left x
      simp only [restore_unheld, close_unheld, Position.conns_afterExamining, List.map_append,
        List.map_reverse, List.count_append, List.count_reverse, List.count_nil]
      omega
    · rw [restore_eq]
      exact List.Subset.trans (List.subset_append_right _ _) (List.subset_append_right _ _)

theorem lend_carries (p : Pool) (id : Nat) (purpose : Purpose) (since : Nat) :
    ∃ after, Carries p id (.queued purpose since) after [] (p.lend id purpose) := by
  rcases p.lend_cases id purpose with ⟨-, h⟩ | ⟨-, -, h⟩ | ⟨-, before, i, gone, hidle, -, -, h⟩
  · rw [h]
    exact ⟨_, rfl, fun x => rfl, List.Subset.refl _⟩
  · rw [h]
    refine ⟨_, rfl, fun x => ?_, List.subset_append_right _ _⟩
    simp only [unheld, move_idle, move_closed, close_closed, Position.conns, List.map_reverse,
      List.count_append, List.count_reverse, List.map_nil, List.count_nil]
    omega
  · have hone : (if p.config.testOnBorrow then Position.testing i.conn
        else .running i.conn).conns = [i.conn] := by
      split <;> rfl
    have hnone : (Position.queued purpose since).conns = [] := rfl
    rw [h]
    refine ⟨_, rfl, fun x => ?_, List.subset_append_right _ _⟩
    simp only [hone, hnone, hidle, unheld, move_idle, move_closed, close_closed, List.map_append,
      List.map_cons, List.map_reverse, List.count_append, List.count_reverse, List.count_cons,
      List.count_nil]
    omega

theorem drop_carries (p : Pool) (id : Nat) (position : Position) :
    Carries p id position (.ended none) [] (p.drop id position) := by
  have hgrown : p.closed ⊆ position.conns ++ p.closed := List.subset_append_right _ _
  unfold drop
  split
  · exact ⟨rfl, fun x => by rw [leave_unheld, close_unheld]; rfl, hgrown⟩
  · exact ⟨rfl, fun x => by rw [move_unheld, close_unheld]; rfl, hgrown⟩

theorem CallerStep.carries {position : Position} {s : Signal} (h : CallerStep p id position s q) :
    ∃ after, Carries p id position after s.opened q := by
  have same : p.closed ⊆ p.closed := List.Subset.refl _
  have grown : ∀ conns : List Nat, p.closed ⊆ conns ++ p.closed :=
    fun _ => List.subset_append_right _ _
  have kept := p.keep_closed
  cases h with
  | granted =>
    obtain ⟨after, hc⟩ := lend_carries { p with permits := p.permits - 1 } id _ _
    exact ⟨after, hc.callers, hc.conns, hc.closed⟩
  | expired => exact ⟨_, rfl, fun x => rfl, same⟩
  | @refilled missing conn =>
    refine ⟨_, rfl, fun x => ?_, same⟩
    have hnone : (Position.refilling missing).conns = [] := rfl
    simp only [hnone, Position.conns_afterExamining, unheld, move_idle, move_closed, Signal.opened,
      List.map_append, List.map_cons, List.map_nil, List.count_append, List.count_nil]
    omega
  | @supplied purpose => exact ⟨_, rfl, fun x => by cases purpose <;> rfl, same⟩
  | @passed c left kept =>
    obtain ⟨after, hcallers, hconns, hclosed⟩ := examine_carries p id (kept ++ [c]) left
    refine ⟨after, hcallers, fun x => ?_, hclosed⟩
    rw [hconns, List.append_assoc]
    rfl
  | tested => exact ⟨_, rfl, fun x => rfl, same⟩
  | worked => exact ⟨_, rfl, fun x => rfl, same⟩
  | released =>
    exact ⟨.ended none, by simp, fun x => by rw [leave_unheld, keep_unheld]; rfl, kept _⟩
  | returned =>
    exact ⟨.ended none, by simp, fun x => by rw [leave_unheld, keep_unheld]; rfl, kept _⟩
  | subscribed => exact ⟨_, rfl, fun x => rfl, same⟩
  | @unfit c left kept =>
    obtain ⟨after, hcallers, hconns, hclosed⟩ := examine_carries (p.condemn c.conn) id kept left
    refine ⟨after, hcallers, fun x => ?_, List.Subset.trans (grown [c.conn]) hclosed⟩
    have hout : (Position.examining c left kept).conns = (kept ++ c :: left).map Idle.conn := rfl
    rw [hconns, hout, condemn_unheld]
    simp only [Signal.opened, List.map_append, List.map_cons, List.count_append, List.count_cons,
      List.count_nil]
    omega
  | unfilled => exact ⟨_, rfl, fun x => rfl, same⟩
  | untested => exact ⟨_, rfl, fun x => by rw [move_unheld, condemn_unheld]; rfl, grown [_]⟩
  | unreached => exact ⟨_, rfl, fun x => rfl, same⟩
  | dropped => exact ⟨_, drop_carries p id _⟩
  | _ => exact ⟨_, rfl, fun x => by rw [leave_unheld, condemn_unheld]; rfl, grown [_]⟩

/-! ## Places -/

/-- Where a connection can be. -/
inductive Place where
  | idle
  /-- Taken out by an eviction run. -/
  | examined
  | leased
  | closed
deriving DecidableEq, Repr

/-- The connections at a place. -/
def connsAt (p : Pool) : Place → List Nat
  | .idle => p.idle.map Idle.conn
  | .examined => p.callers.flatMap fun pos => pos.batch.map Idle.conn
  | .leased => p.callers.flatMap Position.lease
  | .closed => p.closed

/-- How often a connection is anywhere. -/
def held (p : Pool) (x : Nat) : Nat := p.unheld x + p.total fun pos => pos.conns.count x

theorem held_eq (p : Pool) (x : Nat) : p.held x =
    (p.connsAt .idle).count x + (p.connsAt .examined).count x + (p.connsAt .leased).count x +
      (p.connsAt .closed).count x := by
  have hcallers : p.total (fun pos => pos.conns.count x) =
      (p.connsAt .examined).count x + (p.connsAt .leased).count x := by
    simp only [total, connsAt, List.count_flatMap, Position.conns_eq, List.count_append]
    exact List.sum_map_add
  simp only [held, unheld, hcallers, connsAt]
  omega

/-! ## Numbers of connections -/

@[simp] theorem examine_nextConn (p : Pool) (id : Nat) (kept left : List Idle) :
    (p.examine id kept left).nextConn = p.nextConn := by
  rcases p.examine_cases id kept left with ⟨gone, c, rest, -, -, -, -, h⟩ | h
  · rw [h]
    rfl
  · rw [h, restore_eq]
    rfl

@[simp] theorem keep_nextConn (p : Pool) (conn : Nat) : (p.keep conn).nextConn = p.nextConn := by
  rcases p.keep_cases conn with ⟨-, h⟩ | ⟨-, h⟩ <;> simp [h]

@[simp] theorem lend_nextConn (p : Pool) (id : Nat) (purpose : Purpose) :
    (p.lend id purpose).nextConn = p.nextConn := by
  rcases p.lend_cases id purpose with ⟨-, h⟩ | ⟨-, -, h⟩ | ⟨-, before, i, gone, -, -, -, h⟩ <;>
    rw [h] <;> rfl

@[simp] theorem leave_nextConn (p : Pool) (id : Nat) (fault : Option Fault) :
    (p.leave id fault).nextConn = p.nextConn := rfl

@[simp] theorem drop_nextConn (p : Pool) (id : Nat) (pos : Position) :
    (p.drop id pos).nextConn = p.nextConn := by
  unfold drop
  split <;> rfl

@[simp] theorem condemn_nextConn (p : Pool) (conn : Nat) :
    (p.condemn conn).nextConn = p.nextConn := rfl

theorem CallerStep.nextConn {position : Position} {s : Signal} (h : CallerStep p id position s q) :
    p.nextConn ≤ q.nextConn ∧ ∀ x ∈ s.opened, p.nextConn ≤ x ∧ x < q.nextConn := by
  cases h with
  | refilled hnew => exact ⟨Nat.le_succ_of_le hnew, by simpa [Signal.opened] using hnew⟩
  | supplied hnew => exact ⟨Nat.le_succ_of_le hnew, by simpa [Signal.opened] using hnew⟩
  | _ => simp [Signal.opened]

@[simp] theorem enter_nextConn (p : Pool) (purpose : Purpose) :
    (p.enter purpose).nextConn = p.nextConn := by
  rcases p.enter_cases purpose with h | ⟨d, -, -, -, h⟩
  · rw [h]
  · rw [h, evict, examine_nextConn]

/-! ## Runs -/

/-- The connection that is opened with an act. -/
def Act.opened : Act → List Nat
  | signal _ s => s.opened
  | _ => []

/-- What a new caller has taken out was idle. -/
theorem enter_carries (p : Pool) (purpose : Purpose) :
    ∃ after, (p.enter purpose).callers = p.callers ++ [after] ∧
      (∀ x, (p.enter purpose).unheld x + after.conns.count x = p.unheld x) ∧
      p.closed ⊆ (p.enter purpose).closed := by
  rcases p.enter_cases purpose with h | ⟨d, -, -, -, h⟩
  · rw [h]
    exact ⟨.queued purpose p.clock, rfl, fun x => rfl, List.Subset.refl _⟩
  · rw [h, evict]
    obtain ⟨after, hcallers, hconns, hclosed⟩ := examine_carries _ p.callers.length [] _
    refine ⟨after, by rw [hcallers]; simp, fun x => ?_, hclosed⟩
    have hsplit := congrArg (fun l : List Idle => (l.map Idle.conn).count x)
      (List.take_append_drop p.config.effectiveTestsPerEvictionRun p.idle)
    simp only [List.map_append, List.count_append] at hsplit
    rw [hconns]
    simp only [unheld, List.nil_append]
    omega

/-- An act opens a connection or none, and loses none. -/
theorem held_act {a : Act} (ha : p.act a = some q) (x : Nat) :
    q.held x = p.held x + a.opened.count x := by
  cases a with
  | enter purpose =>
    cases ha
    obtain ⟨after, hcallers, hconns, -⟩ := p.enter_carries purpose
    have htotal := total_append (fun pos => pos.conns.count x) hcallers
    have hx := hconns x
    simp only [held, Act.opened, List.count_nil]
    omega
  | signal id s =>
    obtain ⟨before, hb, hs⟩ := step_cases ha
    obtain ⟨after, hc⟩ := hs.carries
    have htotal := total_set (fun pos => pos.conns.count x) hb hc.callers
    have hx := hc.conns x
    simp only [held, Act.opened]
    omega
  | elapse nanos =>
    cases ha
    rfl

theorem closed_act {a : Act} (ha : p.act a = some q) : p.closed ⊆ q.closed := by
  cases a with
  | enter purpose =>
    cases ha
    obtain ⟨-, -, -, hclosed⟩ := p.enter_carries purpose
    exact hclosed
  | signal id s =>
    obtain ⟨before, hb, hs⟩ := step_cases ha
    obtain ⟨after, hc⟩ := hs.carries
    exact hc.closed
  | elapse nanos =>
    cases ha
    exact List.Subset.refl _

theorem nextConn_act {a : Act} (ha : p.act a = some q) :
    p.nextConn ≤ q.nextConn ∧ ∀ x ∈ a.opened, p.nextConn ≤ x ∧ x < q.nextConn := by
  cases a with
  | enter purpose =>
    cases ha
    simp [Act.opened]
  | signal id s =>
    obtain ⟨before, hb, hs⟩ := step_cases ha
    exact hs.nextConn
  | elapse nanos =>
    cases ha
    simp [Act.opened, elapse]

/-- No connection is anywhere twice, and none has a number that is still to be given. -/
structure Owned (p : Pool) : Prop where
  once : ∀ x, p.held x ≤ 1
  known : ∀ x, p.nextConn ≤ x → p.held x = 0

theorem opened_length_le (a : Act) : a.opened.length ≤ 1 := by
  cases a with
  | signal id s => cases s <;> simp [Act.opened, Signal.opened]
  | _ => simp [Act.opened]

theorem Owned.act {a : Act} (h : Owned p) (ha : p.act a = some q) : Owned q := by
  obtain ⟨hle, hnew⟩ := nextConn_act ha
  refine ⟨fun x => ?_, fun x hx => ?_⟩
  · rw [held_act ha]
    by_cases hx : x ∈ a.opened
    · rw [h.known x (hnew x hx).1, Nat.zero_add]
      exact List.count_le_length.trans (opened_length_le a)
    · rw [List.count_eq_zero_of_not_mem hx]
      exact h.once x
  · have hnot : x ∉ a.opened := fun hmem => absurd (hnew x hmem).2 (Nat.not_lt.2 hx)
    rw [held_act ha, h.known x (hle.trans hx), List.count_eq_zero_of_not_mem hnot]

theorem Owned.fresh {c : PoolConfig} (h₀ : ofConfig? c = some p₀) : Owned p₀ := by
  rw [ofConfig?_eq h₀]
  exact ⟨fun x => Nat.zero_le _, fun x _ => rfl⟩

/-- A connection is at one place only, and there only once. -/
theorem Owned.place_unique (h : Owned p) {conn : Nat} {place place' : Place}
    (hp : conn ∈ p.connsAt place) (hp' : conn ∈ p.connsAt place') : place = place' := by
  have hone := h.once conn
  have hpos := List.count_pos_iff.2 hp
  have hpos' := List.count_pos_iff.2 hp'
  rw [held_eq] at hone
  cases place <;> cases place' <;> first | rfl | omega

theorem Owned.nodup (h : Owned p) (place : Place) : (p.connsAt place).Nodup := by
  refine List.nodup_iff_count_le_one.2 fun x => ?_
  have hone := h.once x
  rw [held_eq] at hone
  cases place <;> omega

theorem exists_place {conn : Nat} (h : 0 < p.held conn) : ∃ place, conn ∈ p.connsAt place := by
  rw [held_eq] at h
  by_contra hnone
  have hzero : ∀ place, (p.connsAt place).count conn = 0 := fun place =>
    List.count_eq_zero_of_not_mem fun hmem => hnone ⟨place, hmem⟩
  simp [hzero] at h

/-- The connections that acts have opened. -/
def opened (acts : List Act) : List Nat := acts.flatMap Act.opened

theorem held_run {acts : List Act} (h : p.run (fun _ _ => True) acts = some q) (x : Nat) :
    q.held x = p.held x + (opened acts).count x := by
  induction acts generalizing p with
  | nil =>
    cases h
    rfl
  | cons a rest ih =>
    obtain ⟨r, hr, hrest⟩ := Option.bind_eq_some_iff.1 h
    rw [if_pos trivial] at hrest
    rw [ih hrest, held_act hr, opened, opened, List.flatMap_cons, List.count_append, Nat.add_assoc]

/-! ## Failures -/

/-- A connection on which something fails is closed. -/
theorem fail_closes {pos : Position} {conn : Nat} (hpos : p.callers[id]? = some pos)
    (ht : pos.tried? = some conn) :
    ∃ q, p.act (.signal id .failed) = some q ∧ conn ∈ q.closed := by
  obtain ⟨q, hq⟩ : ∃ q, p.act (.signal id .failed) = some q := by
    cases pos <;> simp_all [act, step, fail, Position.tried?]
  refine ⟨q, hq, ?_⟩
  obtain ⟨pos', hpos', hs⟩ := step_cases hq
  cases hpos.symm.trans hpos'
  cases hs with
  | @unfit c left kept =>
    cases ht
    obtain ⟨-, -, -, hclosed⟩ := examine_carries (p.condemn c.conn) id kept left
    exact hclosed List.mem_cons_self
  | unfilled => cases ht
  | unreached => cases ht
  | _ =>
    cases ht
    exact List.mem_cons_self

/-- What a caller takes is idle, and not for so long that it is evictable. -/
theorem takeIdle_fit {conn : Nat} (ht : p.takeIdle = (some conn, q)) :
    ∃ i ∈ p.idle, i.conn = conn ∧
      ∀ d, p.config.minEvictableIdle = some d → p.clock - i.since < d.nanos := by
  rcases p.takeIdle_cases with ⟨before, i, gone, hidle, hi, -, htake⟩ | ⟨-, htake⟩
  · cases htake.symm.trans ht
    refine ⟨i, by simp [hidle], rfl, fun d hd => ?_⟩
    simpa [isEvictable, hd] using hi
  · cases htake.symm.trans ht

/-- After any acts, each connection that they opened is at exactly one place, and only once there.
Whatever fails on a connection closes it, and it is closed from then on. What a caller takes from
the idle list has not been idle for as long as the configuration allows. -/
theorem connections_owned {c : PoolConfig} {acts : List Act} (h₀ : ofConfig? c = some p₀)
    (hrun : p₀.run (fun _ _ => True) acts = some p) :
    ((∀ conn ∈ opened acts, ∃! place, conn ∈ p.connsAt place) ∧
      ∀ place, (p.connsAt place).Nodup ∧ p.connsAt place ⊆ opened acts) ∧
      (∀ id pos conn, p.callers[id]? = some pos → pos.tried? = some conn →
        ∃ q, p.act (.signal id .failed) = some q ∧ ∀ r, Reaches (fun _ _ => True) q r →
          ∀ place, conn ∈ r.connsAt place ↔ place = .closed) ∧
      ∀ conn q, p.takeIdle = (some conn, q) → ∃ i ∈ p.idle, i.conn = conn ∧
        ∀ d, p.config.minEvictableIdle = some d → p.clock - i.since < d.nanos := by
  have owned : ∀ {q r}, Owned q → Reaches (fun _ _ => True) q r → Owned r := fun hq hr =>
    hr.keeps (fun _ _ _ h _ ha => h.act ha) hq
  have hp : Owned p := owned (.fresh h₀) (reaches_of_run hrun)
  have hheld : ∀ x, p.held x = (opened acts).count x := fun x => by
    have hfresh : p₀.held x = 0 := by
      rw [ofConfig?_eq h₀]
      rfl
    rw [held_run hrun, hfresh, Nat.zero_add]
  refine ⟨⟨fun conn hopen => ?_, fun place => ⟨hp.nodup place, fun conn hconn => ?_⟩⟩,
    fun id pos conn hpos ht => ?_, fun conn q ht => takeIdle_fit ht⟩
  · obtain ⟨place, hplace⟩ : ∃ place, conn ∈ p.connsAt place :=
      exists_place (by rw [hheld]; exact List.count_pos_iff.2 hopen)
    exact ⟨place, hplace, fun _ h => hp.place_unique h hplace⟩
  · rw [← List.count_pos_iff, ← hheld, held_eq]
    have hpos := List.count_pos_iff.2 hconn
    cases place <;> omega
  · obtain ⟨q, hq, hclosed⟩ := fail_closes hpos ht
    refine ⟨q, hq, fun r hr place => ?_⟩
    have hr' : conn ∈ r.connsAt .closed :=
      hr.keeps (P := fun r => conn ∈ r.closed) (fun _ _ _ h _ ha => closed_act ha h) hclosed
    exact ⟨fun h => (owned (hp.act hq) hr).place_unique h hr', fun h => h ▸ hr'⟩

/-- Four commands: two give their connections back, one fails, one goes on; then an eviction run
begins. -/
def inspection : List Act :=
  [.enter .command, .signal 0 .granted, .signal 0 (.connected 0), .enter .command,
    .signal 1 .granted, .signal 1 (.connected 1), .enter .command, .signal 2 .granted,
    .signal 2 (.connected 2), .enter .command, .signal 3 .granted, .signal 3 (.connected 3),
    .signal 0 .succeeded, .signal 1 .succeeded, .signal 2 .failed, .elapse 1000000000,
    .enter .command]

/-- There is a connection at each place; the one that is tested fails. -/
theorem connections_owned_everywhere : ∃ p₀ p, ofConfig? patrolled = some p₀ ∧
    p₀.run (fun _ _ => True) inspection = some p ∧
    p.connsAt .idle = [1] ∧ p.connsAt .examined = [0] ∧ p.connsAt .leased = [3] ∧
    p.connsAt .closed = [2] ∧ (∃! place, 3 ∈ p.connsAt place) ∧
    ∃ q, p.act (.signal 4 .failed) = some q ∧ ∀ place, 0 ∈ q.connsAt place ↔ place = .closed := by
  obtain ⟨p, hrun, hp⟩ := (Option.any_eq_true _ _).1 (show ((ofConfig? patrolled).bind fun p =>
      p.run (fun _ _ => True) inspection).any (fun p => p.connsAt .idle == [1] &&
        p.connsAt .examined == [0] && p.connsAt .leased == [3] && p.connsAt .closed == [2] &&
        p.callers[4]? == some (.examining ⟨0, 0⟩ [] [])) = true by decide +kernel)
  obtain ⟨p₀, h₀, hrun⟩ := Option.bind_eq_some_iff.1 hrun
  simp only [Bool.and_eq_true, beq_iff_eq] at hp
  obtain ⟨⟨⟨⟨hidle, hexamined⟩, hleased⟩, hclosed⟩, hpos⟩ := hp
  obtain ⟨hplaces, hfails, -⟩ := connections_owned h₀ hrun
  obtain ⟨q, hq, hbad⟩ := hfails 4 _ 0 hpos rfl
  exact ⟨p₀, p, h₀, hrun, hidle, hexamined, hleased, hclosed, hplaces.1 3 (by decide), q, hq,
    hbad q .refl⟩

end Pool

end Muster
