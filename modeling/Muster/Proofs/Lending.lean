import Muster.Pool
import Mathlib.Algebra.Ring.Nat
import Mathlib.Data.List.TakeWhile

/-!
# Runs of the connection pool

What one step of a caller can do, sorted once and for all (`CallerStep`), and the pools that
calls, signals and time lead to. An eviction run that goes on without waiting is told in closed
form (`examine_cases`), so that no invariant has to follow its recursion again.
-/
namespace Muster

namespace Pool

namespace Position

def isEnded : Position → Bool
  | ended _ => true
  | _ => false

/-- How many connections a caller at this position is still going to open for the idle list. -/
def missing : Position → Nat
  | refilling n => n
  | _ => 0

/-- What the eviction run of a caller has taken out of the idle list, oldest first. -/
def batch : Position → List Idle
  | examining c left kept => kept ++ c :: left
  | _ => []

/-- Where a caller stands with the new connection it asked for. -/
def supplied (conn : Nat) : Purpose → Position
  | .command => running conn
  | .subscription => subscribing conn

end Position

variable {p q : Pool} {id : Nat}

/-! ## What the parts of a step leave as it is -/

section
variable (p) (pos : Position) (conns : List Nat) (conn n : Nat) (fault : Option Fault)

@[simp] theorem move_config : (p.move id pos).config = p.config := rfl
@[simp] theorem move_permits : (p.move id pos).permits = p.permits := rfl
@[simp] theorem move_idle : (p.move id pos).idle = p.idle := rfl
@[simp] theorem move_clock : (p.move id pos).clock = p.clock := rfl
@[simp] theorem move_nextConn : (p.move id pos).nextConn = p.nextConn := rfl
@[simp] theorem move_closed : (p.move id pos).closed = p.closed := rfl
@[simp] theorem move_faulty : (p.move id pos).faulty = p.faulty := rfl
@[simp] theorem move_callers : (p.move id pos).callers = p.callers.set id pos := rfl

@[simp] theorem close_config : (p.close conns).config = p.config := rfl
@[simp] theorem close_permits : (p.close conns).permits = p.permits := rfl
@[simp] theorem close_idle : (p.close conns).idle = p.idle := rfl
@[simp] theorem close_clock : (p.close conns).clock = p.clock := rfl
@[simp] theorem close_nextConn : (p.close conns).nextConn = p.nextConn := rfl
@[simp] theorem close_closed : (p.close conns).closed = conns ++ p.closed := rfl
@[simp] theorem close_faulty : (p.close conns).faulty = p.faulty := rfl
@[simp] theorem close_callers : (p.close conns).callers = p.callers := rfl
@[simp] theorem close_isEvictable : (p.close conns).isEvictable = p.isEvictable := rfl

theorem close_close (conns' : List Nat) :
    (p.close conns).close conns' = p.close (conns' ++ conns) := by
  simp [close]

@[simp] theorem condemn_config : (p.condemn conn).config = p.config := rfl
@[simp] theorem condemn_permits : (p.condemn conn).permits = p.permits := rfl
@[simp] theorem condemn_idle : (p.condemn conn).idle = p.idle := rfl
@[simp] theorem condemn_callers : (p.condemn conn).callers = p.callers := rfl

@[simp] theorem leave_config : (p.leave id fault).config = p.config := rfl
@[simp] theorem leave_permits : (p.leave id fault).permits = p.permits + 1 := rfl
@[simp] theorem leave_idle : (p.leave id fault).idle = p.idle := rfl
@[simp] theorem leave_callers : (p.leave id fault).callers = p.callers.set id (.ended fault) := rfl

end

/-! ## What the parts of a step do -/

/-- The youngest idle connection that is not evictable is taken; all younger ones are closed. -/
theorem takeIdle_cases (p : Pool) :
    (∃ before i gone, p.idle = before ++ i :: gone ∧ p.isEvictable i = false ∧
      (∀ g ∈ gone, p.isEvictable g = true) ∧
      p.takeIdle =
        (some i.conn, { p.close (gone.reverse.map Idle.conn) with idle := before })) ∨
    ((∀ g ∈ p.idle, p.isEvictable g = true) ∧
      p.takeIdle = (none, { p.close (p.idle.reverse.map Idle.conn) with idle := [] })) := by
  have hsplit := List.takeWhile_append_dropWhile (p := p.isEvictable) (l := p.idle.reverse)
  have hgone : ∀ g ∈ p.idle.reverse.takeWhile p.isEvictable, p.isEvictable g = true :=
    fun g hg => List.mem_takeWhile_imp hg
  cases hyoung : p.idle.reverse.dropWhile p.isEvictable with
  | nil =>
    rw [hyoung, List.append_nil] at hsplit
    refine .inr ⟨fun g hg => hgone g (hsplit.symm ▸ List.mem_reverse.2 hg), ?_⟩
    simp [takeIdle, hyoung, hsplit]
  | cons i rest =>
    have hi : p.isEvictable i = false := by
      have h := List.dropWhile_get_zero_not p.isEvictable p.idle.reverse (by simp [hyoung])
      simpa [hyoung] using h
    rw [hyoung] at hsplit
    refine .inl ⟨rest.reverse, i, (p.idle.reverse.takeWhile p.isEvictable).reverse, ?_, hi, ?_, ?_⟩
    · have h := congrArg List.reverse hsplit
      simpa using h.symm
    · intro g hg
      exact hgone g (List.mem_reverse.1 hg)
    · simp [takeIdle, hyoung]

/-- A connection is kept or closed. -/
theorem keep_cases (p : Pool) (conn : Nat) :
    (p.idle.length < p.config.effectiveMaxIdle ∧
      p.keep conn = { p with idle := p.idle ++ [⟨conn, p.clock⟩] }) ∨
    (p.config.effectiveMaxIdle ≤ p.idle.length ∧ p.keep conn = p.close [conn]) := by
  unfold keep
  split
  · next h => exact .inl ⟨h, rfl⟩
  · next h => exact .inr ⟨Nat.le_of_not_lt h, rfl⟩

/-- A caller with a permit opens a connection, or tests or uses the idle one that it takes. -/
theorem lend_cases (p : Pool) (id : Nat) (purpose : Purpose) :
    (purpose = .subscription ∧ p.lend id purpose = p.move id (.connecting .subscription)) ∨
    (purpose = .command ∧ (∀ g ∈ p.idle, p.isEvictable g = true) ∧
      p.lend id purpose =
        { p.close (p.idle.reverse.map Idle.conn) with idle := [] }.move id (.connecting .command)) ∨
    (purpose = .command ∧ ∃ before i gone, p.idle = before ++ i :: gone ∧
      p.isEvictable i = false ∧ (∀ g ∈ gone, p.isEvictable g = true) ∧
      p.lend id purpose = { p.close (gone.reverse.map Idle.conn) with idle := before }.move id
        (if p.config.testOnBorrow then .testing i.conn else .running i.conn)) := by
  cases purpose with
  | subscription => exact .inl ⟨rfl, rfl⟩
  | command =>
    rcases p.takeIdle_cases with ⟨before, i, gone, hidle, hi, hgone, htake⟩ | ⟨hgone, htake⟩
    · refine .inr (.inr ⟨rfl, before, i, gone, hidle, hi, hgone, ?_⟩)
      simp only [lend, htake, close_config]
    · refine .inr (.inl ⟨rfl, hgone, ?_⟩)
      simp only [lend, htake]

/-! ## Eviction runs -/

/-- Where a caller stands with so many connections to open. -/
def afterExamining (clock missing : Nat) : Position :=
  if missing = 0 then .queued .command clock else .refilling missing

theorem refill_eq (p : Pool) (id missing : Nat) :
    p.refill id missing = p.move id (afterExamining p.clock missing) := by
  unfold refill afterExamining
  split <;> rfl

/-- The idle connections after an eviction run that keeps these of the ones it took out. -/
def restored (p : Pool) (kept : List Idle) : List Idle :=
  kept.take (p.config.effectiveMaxIdle - p.idle.length) ++ p.idle

/-- What an eviction run closes because there is no room. -/
def surplus (p : Pool) (kept : List Idle) : List Nat :=
  (kept.drop (p.config.effectiveMaxIdle - p.idle.length)).map Idle.conn

theorem restore_eq (p : Pool) (id : Nat) (kept : List Idle) :
    p.restore id kept = { p.close (p.surplus kept) with idle := p.restored kept }.move id
      (afterExamining p.clock (p.config.effectiveMinIdle - (p.restored kept).length)) := by
  simp only [restore, refill_eq]
  rfl

/-- An eviction run that goes on closes what is evictable, up to a candidate that has to be tested
or to the end. -/
theorem examine_cases (p : Pool) (id : Nat) (kept left : List Idle) :
    (∃ gone c rest, left = gone ++ c :: rest ∧ (∀ g ∈ gone, p.isEvictable g = true) ∧
      p.isEvictable c = false ∧ p.config.testWhileIdle = true ∧
      p.examine id kept left =
        (p.close (gone.reverse.map Idle.conn)).move id (.examining c rest kept)) ∨
    p.examine id kept left =
      (p.close ((left.filter p.isEvictable).reverse.map Idle.conn)).restore id
        (kept ++ left.filter fun c => !p.isEvictable c) := by
  induction left generalizing p kept with
  | nil => exact .inr (by simp [examine, close])
  | cons c left ih =>
    by_cases hc : p.isEvictable c = true
    · have hgo : p.examine id kept (c :: left) = (p.close [c.conn]).examine id kept left := by
        simp [examine, hc]
      have h := ih (p.close [c.conn]) kept
      rw [close_isEvictable, close_close] at h
      rcases h with ⟨gone, d, rest, rfl, hgone, hd, ht, h⟩ | h
      · refine .inl ⟨c :: gone, d, rest, rfl, by simpa [hc] using hgone, hd, ht, ?_⟩
        rw [hgo, h, close_close]
        simp
      · refine .inr ?_
        rw [hgo, h]
        simp [hc]
    · by_cases ht : p.config.testWhileIdle = true
      · refine .inl ⟨[], c, left, rfl, by simp, by simpa using hc, ht, ?_⟩
        simp [examine, hc, ht, close]
      · have hgo : p.examine id kept (c :: left) = p.examine id (kept ++ [c]) left := by
          simp [examine, hc, ht]
        rcases ih p (kept ++ [c]) with ⟨-, -, -, -, -, -, ht', -⟩ | h
        · exact absurd ht' ht
        · refine .inr ?_
          rw [hgo, h]
          simp [hc]

/-! ## Steps -/

/-- What a step of a caller that stands somewhere can do to the pool. -/
inductive CallerStep (p : Pool) (id : Nat) : Position → Signal → Pool → Prop where
  | granted {purpose : Purpose} {since : Nat} (free : 0 < p.permits) :
    CallerStep p id (.queued purpose since) .granted
      ({ p with permits := p.permits - 1 }.lend id purpose)
  | expired {purpose : Purpose} {since : Nat} {d : Duration} (limit : p.config.maxWait = some d)
      (waited : d.nanos ≤ p.clock - since) :
    CallerStep p id (.queued purpose since) .expired (p.move id (.ended (some (.timeout d))))
  | refilled {missing conn : Nat} (new : p.nextConn ≤ conn) :
    CallerStep p id (.refilling missing) (.connected conn)
      ({ p with nextConn := conn + 1, idle := p.idle ++ [Idle.mk conn p.clock] }.move id
        (afterExamining p.clock (missing - 1)))
  | supplied {purpose : Purpose} {conn : Nat} (new : p.nextConn ≤ conn) :
    CallerStep p id (.connecting purpose) (.connected conn)
      ({ p with nextConn := conn + 1 }.move id (.supplied conn purpose))
  | passed {c : Idle} {left kept : List Idle} :
    CallerStep p id (.examining c left kept) .succeeded (p.examine id (kept ++ [c]) left)
  | tested {conn : Nat} : CallerStep p id (.testing conn) .succeeded (p.move id (.running conn))
  | worked {conn : Nat} (test : p.config.testOnReturn = true) :
    CallerStep p id (.running conn) .succeeded (p.move id (.returning conn))
  | released {conn : Nat} (untested : p.config.testOnReturn = false) :
    CallerStep p id (.running conn) .succeeded ((p.keep conn).leave id none)
  | returned {conn : Nat} :
    CallerStep p id (.returning conn) .succeeded ((p.keep conn).leave id none)
  | subscribed {conn : Nat} :
    CallerStep p id (.subscribing conn) .succeeded (p.move id (.streaming conn))
  | unfit {c : Idle} {left kept : List Idle} :
    CallerStep p id (.examining c left kept) .failed ((p.condemn c.conn).examine id kept left)
  | unfilled {missing : Nat} :
    CallerStep p id (.refilling missing) .failed (p.move id (.queued .command p.clock))
  | untested {conn : Nat} :
    CallerStep p id (.testing conn) .failed ((p.condemn conn).move id (.connecting .command))
  | unreached {purpose : Purpose} :
    CallerStep p id (.connecting purpose) .failed (p.leave id (some .redis))
  | failed {conn : Nat} :
    CallerStep p id (.running conn) .failed ((p.condemn conn).leave id (some .redis))
  | unreturned {conn : Nat} :
    CallerStep p id (.returning conn) .failed ((p.condemn conn).leave id none)
  | rejected {conn : Nat} :
    CallerStep p id (.subscribing conn) .failed ((p.condemn conn).leave id (some .redis))
  | cut {conn : Nat} : CallerStep p id (.streaming conn) .failed ((p.condemn conn).leave id none)
  | dropped {position : Position} (live : position.isEnded = false) :
    CallerStep p id position .dropped (p.drop id position)

/-- Every step of a caller is one of these. -/
theorem step_cases {s : Signal} (h : p.step id s = some q) :
    ∃ position, p.callers[id]? = some position ∧ CallerStep p id position s q := by
  unfold step at h
  cases hpos : p.callers[id]? with
  | none => simp [hpos] at h
  | some position =>
    refine ⟨position, rfl, ?_⟩
    rw [hpos] at h
    cases s with
    | granted =>
      cases position <;> simp only [reduceCtorEq] at h
      split at h
      · next hfree => exact Option.some.inj h ▸ .granted hfree
      · cases h
    | expired =>
      cases position <;> simp only [reduceCtorEq] at h
      cases hd : p.config.maxWait with
      | none => simp [hd] at h
      | some d =>
        simp only [hd] at h
        split at h
        · next hover => exact Option.some.inj h ▸ .expired hd hover
        · cases h
    | connected conn =>
      cases position with
      | refilling missing =>
        simp only [receive, refill_eq] at h
        split at h
        · next hnew => exact Option.some.inj h ▸ .refilled hnew
        · cases h
      | connecting purpose =>
        simp only at h
        split at h
        · next hnew =>
          cases purpose <;> exact Option.some.inj h ▸ .supplied hnew
        · cases h
      | _ => simp [receive] at h
    | succeeded =>
      cases position with
      | examining c left kept => exact Option.some.inj h ▸ .passed
      | testing conn => exact Option.some.inj h ▸ .tested
      | running conn =>
        simp only [succeed] at h
        split at h
        · next ht => exact Option.some.inj h ▸ .worked ht
        · next ht => exact Option.some.inj h ▸ .released (by simpa using ht)
      | returning conn => exact Option.some.inj h ▸ .returned
      | subscribing conn => exact Option.some.inj h ▸ .subscribed
      | _ => simp [succeed] at h
    | failed =>
      cases position with
      | examining c left kept => exact Option.some.inj h ▸ .unfit
      | refilling missing => exact Option.some.inj h ▸ .unfilled
      | testing conn => exact Option.some.inj h ▸ .untested
      | connecting purpose => exact Option.some.inj h ▸ .unreached
      | running conn => exact Option.some.inj h ▸ .failed
      | returning conn => exact Option.some.inj h ▸ .unreturned
      | subscribing conn => exact Option.some.inj h ▸ .rejected
      | streaming conn => exact Option.some.inj h ▸ .cut
      | _ => simp [fail] at h
    | dropped =>
      cases position with
      | ended fault => simp at h
      | _ => exact Option.some.inj h ▸ .dropped rfl

theorem CallerStep.not_ended {position : Position} {s : Signal}
    (h : CallerStep p id position s q) : position.isEnded = false := by
  cases h with
  | dropped hlive => exact hlive
  | _ => rfl

/-- A new caller waits for a permit, or first makes an eviction run that is due. -/
theorem enter_cases (p : Pool) (purpose : Purpose) :
    p.enter purpose = { p with callers := p.callers ++ [.queued purpose p.clock] } ∨
    ∃ d, p.config.evictionInterval = some d ∧ d.nanos ≤ p.clock - p.lastEviction ∧
      purpose = .command ∧
      p.enter purpose =
        { p with
          callers := p.callers ++ [Position.queued .command p.clock]
          lastEviction := p.clock }.evict p.callers.length := by
  cases purpose with
  | subscription => exact .inl rfl
  | command =>
    cases hd : p.config.evictionInterval with
    | none => exact .inl (by simp [enter, claimEviction?, hd])
    | some d =>
      by_cases hdue : p.clock - p.lastEviction < d.nanos
      · exact .inl (by simp [enter, claimEviction?, hd, hdue])
      · refine .inr ⟨d, rfl, Nat.le_of_not_lt hdue, rfl, ?_⟩
        simp [enter, claimEviction?, hd, hdue]

/-! ## Sums over the callers -/

/-- What the callers have altogether, if a caller has so much at a position. -/
def total (p : Pool) (f : Position → Nat) : Nat := (p.callers.map f).sum

theorem sum_map_set {α : Type} (f : α → Nat) {l : List α} {i : Nat} {a b : α}
    (h : l[i]? = some a) : ((l.set i b).map f).sum + f a = (l.map f).sum + f b := by
  induction l generalizing i with
  | nil => simp at h
  | cons c l ih =>
    cases i with
    | zero =>
      obtain rfl : c = a := by simpa using h
      simp only [List.set_cons_zero, List.map_cons, List.sum_cons]
      omega
    | succ i =>
      have hrest := ih (i := i) (by simpa using h)
      simp only [List.set_cons_succ, List.map_cons, List.sum_cons]
      omega

theorem total_set {before after : Position} (f : Position → Nat)
    (hb : p.callers[id]? = some before) (hq : q.callers = p.callers.set id after) :
    q.total f + f before = p.total f + f after := by
  rw [total, hq]
  exact sum_map_set f hb

theorem total_append {position : Position} (f : Position → Nat)
    (hq : q.callers = p.callers ++ [position]) : q.total f = p.total f + f position := by
  simp [total, hq]

/-! ## Runs -/

/-- What happens to a pool. -/
inductive Act where
  /-- A new caller comes. -/
  | enter (purpose : Purpose)
  /-- A caller is given a signal. -/
  | signal (id : Nat) (s : Signal)
  /-- Time passes. -/
  | elapse (nanos : Nat)
deriving DecidableEq, Repr

def act (p : Pool) : Act → Option Pool
  | .enter purpose => some (p.enter purpose)
  | .signal id s => p.step id s
  | .elapse nanos => some (p.elapse nanos)

/-- The pools that acts of a kind lead to. -/
inductive Reaches (ok : Pool → Act → Prop) (p : Pool) : Pool → Prop where
  | refl : Reaches ok p p
  | act {q r : Pool} {a : Act} (past : Reaches ok p q) (next : q.act a = some r)
      (allowed : ok q a) : Reaches ok p r

/-- The pools of a configuration, whatever its callers do and in whatever order the signals come. -/
def Reachable (c : PoolConfig) (p : Pool) : Prop :=
  ∃ p₀, ofConfig? c = some p₀ ∧ Reaches (fun _ _ => True) p₀ p

theorem Reaches.trans {ok : Pool → Act → Prop} {r : Pool} (h : Reaches ok p q)
    (h' : Reaches ok q r) : Reaches ok p r := by
  induction h' with
  | refl => exact h
  | act _ next allowed ih => exact ih.act next allowed

/-- What acts of a kind keep, a run of that kind keeps. -/
theorem Reaches.keeps {ok : Pool → Act → Prop} {P : Pool → Prop}
    (hact : ∀ q r a, P q → ok q a → q.act a = some r → P r) (h : Reaches ok p q) (hp : P p) :
    P q := by
  induction h with
  | refl => exact hp
  | act _ next allowed ih => exact hact _ _ _ ih allowed next

theorem ofConfig?_eq {c : PoolConfig} (h : ofConfig? c = some p) :
    p = { config := c, permits := c.effectiveMaxTotal } := by
  unfold ofConfig? at h
  split at h
  · exact (Option.some.inj h).symm
  · cases h

/-! ## Given runs -/

/-- Acts one after another, as long as they are of the kind. -/
def run (ok : Pool → Act → Prop) [∀ p a, Decidable (ok p a)] (p : Pool) : List Act → Option Pool
  | [] => some p
  | a :: rest => (p.act a).bind fun q => if ok p a then q.run ok rest else none

theorem reaches_of_run {ok : Pool → Act → Prop} [∀ p a, Decidable (ok p a)] {acts : List Act}
    (h : p.run ok acts = some q) : Reaches ok p q := by
  induction acts generalizing p with
  | nil =>
    cases h
    exact .refl
  | cons a rest ih =>
    obtain ⟨r, hr, hrest⟩ := Option.bind_eq_some_iff.1 h
    split at hrest
    · next hok => exact (Reaches.refl.act hr hok).trans (ih hrest)
    · cases hrest

/-- A pool that given acts lead to, as far as a test can tell. -/
theorem exists_of_run (ok : Pool → Act → Prop) [∀ p a, Decidable (ok p a)] (c : PoolConfig)
    (acts : List Act) (P : Pool → Bool)
    (h : ((ofConfig? c).bind fun p => p.run ok acts).any P = true) :
    ∃ p₀ p, ofConfig? c = some p₀ ∧ Reaches ok p₀ p ∧ P p = true := by
  obtain ⟨p, hrun, hp⟩ := (Option.any_eq_true _ _).1 h
  obtain ⟨p₀, h₀, hrun⟩ := Option.bind_eq_some_iff.1 hrun
  exact ⟨p₀, p, h₀, reaches_of_run hrun, hp⟩

/-- A pool that tests one idle connection every second. -/
def patrolled : PoolConfig :=
  { testWhileIdle := true, testsPerEvictionRun := some 1,
    evictionInterval := some (.ofSeconds 1 0) }

end Pool

end Muster
