import Muster.Proofs.Lending

/-!
# The order of the idle connections

The idle list is meant to be oldest first: an eviction run takes the oldest connections out and lays
those that pass in front again, and whatever becomes idle is the youngest. While a run waits for a
test, a later run may have taken out younger connections; the list stays in order if the later run
lays its own back first (`overtakes`). It is out of order as soon as a run lays a connection in
front of an older one (`Misplaces`), and never otherwise.
-/
namespace Muster

namespace Pool

namespace Position

def isExamining : Position → Bool
  | examining _ _ _ => true
  | _ => false

theorem batch_eq_nil_iff {pos : Position} : pos.batch = [] ↔ pos.isExamining = false := by
  cases pos <;> simp [isExamining, batch]

@[simp] theorem batch_afterExamining (clock missing : Nat) :
    (afterExamining clock missing).batch = [] := by
  unfold afterExamining
  split <;> rfl

end Position

variable {p q p₀ : Pool} {id : Nat}

/-- Oldest first. -/
def Aged (l : List Idle) : Prop := l.Pairwise fun i j => i.since ≤ j.since

instance (l : List Idle) : Decidable (Aged l) := inferInstanceAs (Decidable (l.Pairwise _))

theorem Aged.sublist {l l' : List Idle} (h : Aged l) (hs : l'.Sublist l) : Aged l' :=
  List.Pairwise.sublist hs h

theorem aged_append {l l' : List Idle} :
    Aged (l ++ l') ↔ Aged l ∧ Aged l' ∧ ∀ i ∈ l, ∀ j ∈ l', i.since ≤ j.since :=
  List.pairwise_append

/-- What becomes idle now is the youngest. -/
theorem Aged.concat {l : List Idle} {i : Idle} (h : Aged l) (hi : ∀ j ∈ l, j.since ≤ i.since) :
    Aged (l ++ [i]) :=
  aged_append.2 ⟨h, List.pairwise_singleton _ _, fun j hj k hk => by
    rw [List.mem_singleton.1 hk]
    exact hi j hj⟩

/-! ## One step -/

/-- What a step of a caller does to the idle list and to the connections that the caller has taken
out of it. -/
inductive Rearranged (clock : Nat) (idle out idle' out' : List Idle) : Prop where
  /-- Connections leave, if anything. -/
  | thinned (idle : idle'.Sublist idle) (out : out'.Sublist out)
  /-- One becomes idle. -/
  | laid {conn : Nat} (idle : idle' = idle ++ [⟨conn, clock⟩]) (out : out' = [])
  /-- A run has examined its last candidate and lays back those that it keeps. -/
  | returned {back : List Idle} (kept : back.Sublist out) (idle : idle' = back ++ idle)
    (out : out' = [])

theorem Rearranged.mono {clock : Nat} {idle out out₁ idle' out' : List Idle}
    (h : Rearranged clock idle out idle' out') (hout : out.Sublist out₁) :
    Rearranged clock idle out₁ idle' out' := by
  cases h with
  | thinned hi ho => exact .thinned hi (ho.trans hout)
  | laid hi ho => exact .laid hi ho
  | returned hk hi ho => exact .returned (hk.trans hout) hi ho

theorem Rearranged.none {clock : Nat} {idle out : List Idle} : Rearranged clock idle out idle [] :=
  .thinned (List.Sublist.refl idle) (List.nil_sublist out)

theorem Rearranged.mem {clock : Nat} {idle out idle' out' : List Idle} {i : Idle}
    (h : Rearranged clock idle out idle' out') (hi : i ∈ out' ∨ i ∈ idle') :
    (i ∈ out ∨ i ∈ idle) ∨ i.since = clock := by
  cases h with
  | thinned hidle hout => exact .inl (hi.imp (hout.subset ·) (hidle.subset ·))
  | laid hidle hout =>
    rcases hi with hi | hi
    · simp [hout] at hi
    · rw [hidle] at hi
      rcases List.mem_append.1 hi with hold | hnew
      · exact .inl (.inr hold)
      · exact .inr (by rw [List.mem_singleton.1 hnew])
  | returned hkept hidle hout =>
    rcases hi with hi | hi
    · simp [hout] at hi
    · rw [hidle] at hi
      exact .inl ((List.mem_append.1 hi).imp_left (hkept.subset ·))

/-- Both stay in order if nothing is laid in front of something older. -/
theorem Rearranged.aged {clock : Nat} {idle out idle' out' : List Idle}
    (h : Rearranged clock idle out idle' out') (hidle : Aged idle) (hout : Aged out)
    (hpast : ∀ i ∈ idle, i.since ≤ clock)
    (hfront : ∀ back : List Idle, back.Sublist out → idle' = back ++ idle →
      ∀ i ∈ back, ∀ j ∈ idle, i.since ≤ j.since) : Aged idle' ∧ Aged out' := by
  cases h with
  | thinned hi ho => exact ⟨hidle.sublist hi, hout.sublist ho⟩
  | laid hi ho =>
    rw [hi, ho]
    exact ⟨hidle.concat hpast, List.Pairwise.nil⟩
  | returned hkept hi ho =>
    have hord := aged_append.2 ⟨hout.sublist hkept, hidle, hfront _ hkept hi⟩
    rw [hi, ho]
    exact ⟨hord, List.Pairwise.nil⟩

/-- A step of one caller, who had these connections out. -/
structure Orders (p : Pool) (id : Nat) (out : List Idle) (after : Position) (q : Pool) : Prop where
  config : q.config = p.config
  clock : q.clock = p.clock
  callers : q.callers = p.callers.set id after
  rearranged : Rearranged p.clock p.idle out q.idle after.batch

/-- A run that goes on has something out only if it tests. -/
theorem examine_orders (p : Pool) (id : Nat) (kept left : List Idle) :
    ∃ after, Orders p id (kept ++ left) after (p.examine id kept left) ∧
      (p.config.testWhileIdle = false → after.batch = []) := by
  rcases p.examine_cases id kept left with ⟨gone, c, rest, rfl, -, -, htest, h⟩ | h
  · rw [h]
    refine ⟨.examining c rest kept, ⟨rfl, rfl, rfl, .thinned (List.Sublist.refl _) ?_⟩,
      by simp [htest]⟩
    exact (List.Sublist.refl kept).append (List.sublist_append_right gone (c :: rest))
  · rw [h, restore_eq]
    have hnone := Position.batch_afterExamining
    refine ⟨_, ⟨rfl, rfl, rfl, .returned ?_ rfl (hnone _ _)⟩, fun _ => hnone _ _⟩
    exact (List.take_sublist _ _).trans ((List.Sublist.refl kept).append List.filter_sublist)

theorem keep_orders (p : Pool) (id conn : Nat) (fault : Option Fault) (out : List Idle) :
    Orders p id out (.ended fault) ((p.keep conn).leave id fault) := by
  rcases p.keep_cases conn with ⟨-, h⟩ | ⟨-, h⟩
  · rw [h]
    exact ⟨rfl, rfl, rfl, .laid rfl rfl⟩
  · rw [h]
    exact ⟨rfl, rfl, rfl, .none⟩

theorem lend_orders (p : Pool) (id : Nat) (purpose : Purpose) (out : List Idle) :
    ∃ after, Orders p id out after (p.lend id purpose) := by
  rcases p.lend_cases id purpose with ⟨-, h⟩ | ⟨-, -, h⟩ | ⟨-, before, i, gone, hidle, -, -, h⟩
  · rw [h]
    exact ⟨_, rfl, rfl, rfl, .none⟩
  · rw [h]
    exact ⟨_, rfl, rfl, rfl, .thinned (List.nil_sublist _) (List.nil_sublist _)⟩
  · rw [h]
    refine ⟨_, rfl, rfl, rfl, .thinned (hidle ▸ List.sublist_append_left before (i :: gone)) ?_⟩
    split <;> exact List.nil_sublist _

theorem drop_orders (p : Pool) (id : Nat) (position : Position) (out : List Idle) :
    Orders p id out (.ended none) (p.drop id position) := by
  unfold drop
  split <;> exact ⟨rfl, rfl, rfl, .none⟩

theorem CallerStep.orders {position : Position} {s : Signal} (h : CallerStep p id position s q) :
    ∃ after, Orders p id position.batch after q := by
  cases h with
  | granted =>
    obtain ⟨after, ho⟩ := lend_orders { p with permits := p.permits - 1 } id _ _
    exact ⟨after, ho.config, ho.clock, ho.callers, ho.rearranged⟩
  | refilled => exact ⟨_, rfl, rfl, rfl, .laid rfl (Position.batch_afterExamining _ _)⟩
  | @passed c left kept =>
    obtain ⟨after, ho, -⟩ := examine_orders p id (kept ++ [c]) left
    rw [List.append_assoc] at ho
    exact ⟨after, ho⟩
  | @unfit c left kept =>
    obtain ⟨after, ho, -⟩ := examine_orders (p.condemn c.conn) id kept left
    refine ⟨after, ho.config, ho.clock, ho.callers, ho.rearranged.mono ?_⟩
    exact (List.Sublist.refl kept).append (List.sublist_cons_self c left)
  | released => exact ⟨_, keep_orders p id _ _ _⟩
  | returned => exact ⟨_, keep_orders p id _ _ _⟩
  | dropped => exact ⟨_, drop_orders p id _ _⟩
  | @supplied purpose => exact ⟨_, rfl, rfl, rfl, by cases purpose <;> exact .none⟩
  | _ => exact ⟨_, rfl, rfl, rfl, .none⟩

/-- What a new caller does, who takes these connections out and leaves the rest. -/
structure Arrives (p : Pool) (out rest : List Idle) (after : Position) (q : Pool) : Prop where
  split : p.idle = out ++ rest
  config : q.config = p.config
  clock : q.clock = p.clock
  callers : q.callers = p.callers ++ [after]
  rearranged : Rearranged p.clock rest out q.idle after.batch
  untested : p.config.testWhileIdle = false → after.batch = []

theorem enter_arrives (p : Pool) (purpose : Purpose) :
    ∃ out rest after, Arrives p out rest after (p.enter purpose) := by
  rcases p.enter_cases purpose with h | ⟨d, -, -, -, h⟩
  · rw [h]
    exact ⟨[], p.idle, .queued purpose p.clock, rfl, rfl, rfl, rfl, .none, fun _ => rfl⟩
  · rw [h, evict]
    obtain ⟨after, ho, htest⟩ := examine_orders _ p.callers.length [] _
    refine ⟨_, _, after, (List.take_append_drop _ p.idle).symm, ho.config, ho.clock, ?_,
      ho.rearranged, htest⟩
    rw [ho.callers]
    simp

/-! ## What is idle or taken out -/

/-- The connections that eviction runs have taken out, in the order in which the runs began, and
then the idle ones. -/
def lineage (p : Pool) : List Idle := p.callers.flatMap Position.batch ++ p.idle

/-- When one element changes, what comes from it is replaced where it was. -/
theorem flatMap_set {α β : Type} (f : α → List β) {l : List α} {i : Nat} (hi : i < l.length)
    (b : α) : (l.set i b).flatMap f =
      (l.take i).flatMap f ++ (f b ++ (l.drop (i + 1)).flatMap f) := by
  rw [List.set_eq_take_append_cons_drop, if_pos hi, List.flatMap_append, List.flatMap_cons]

theorem flatMap_get {α β : Type} (f : α → List β) {l : List α} {i : Nat} {a : α}
    (h : l[i]? = some a) : l.flatMap f =
      (l.take i).flatMap f ++ (f a ++ (l.drop (i + 1)).flatMap f) := by
  obtain ⟨hi, rfl⟩ := List.getElem?_eq_some_iff.1 h
  rw [← flatMap_set f hi, List.set_getElem_self]

/-- An eviction run lays connections back while one that began later is still examining. -/
def overtakes (p : Pool) : Act → Bool
  | .signal id s => (p.callers[id]?.any Position.isExamining) &&
      (p.callers.drop (id + 1)).any Position.isExamining &&
      (p.step id s).any fun q => p.idle.length < q.idle.length
  | _ => false

/-- Nobody who came later has anything out when a run lays connections back. -/
theorem none_later {before : Position} {s : Signal} {back : List Idle}
    (ho : p.overtakes (.signal id s) = false) (hb : p.callers[id]? = some before)
    (hq : p.step id s = some q) (hkept : back.Sublist before.batch)
    (hidle : q.idle = back ++ p.idle) (hback : back ≠ []) :
    (p.callers.drop (id + 1)).flatMap Position.batch = [] := by
  have hexamining : before.isExamining = true := by
    by_contra hne
    rw [Position.batch_eq_nil_iff.2 (by simpa using hne)] at hkept
    exact hback (List.sublist_nil.1 hkept)
  have hmore : p.idle.length < q.idle.length := by
    have := List.length_pos_iff.2 hback
    rw [hidle, List.length_append]
    omega
  have hnone : (p.callers.drop (id + 1)).any Position.isExamining = false := by
    simpa [overtakes, hb, hq, hexamining, hmore] using ho
  refine List.flatMap_eq_nil_iff.2 fun pos hpos => Position.batch_eq_nil_iff.2 ?_
  simpa using List.any_eq_false.1 hnone pos hpos

/-- An act that takes no time changes one place of the lineage, and its end. -/
structure Shifted (p : Pool) (a : Act) (q : Pool) (earlier out later rest out' : List Idle) :
    Prop where
  clock : q.clock = p.clock
  before : p.lineage = earlier ++ (out ++ (later ++ rest))
  after : q.lineage = earlier ++ (out' ++ (later ++ q.idle))
  rearranged : Rearranged p.clock rest out q.idle out'
  alone : p.overtakes a = false → ∀ back : List Idle, back.Sublist out → q.idle = back ++ rest →
    back ≠ [] → later = []

theorem act_shifted {a : Act} (ha : p.act a = some q) :
    (∃ earlier out later rest out', Shifted p a q earlier out later rest out') ∨
      ∃ nanos, q = p.elapse nanos := by
  cases a with
  | enter purpose =>
    cases ha
    obtain ⟨out, rest, after, h⟩ := p.enter_arrives purpose
    refine .inl ⟨p.callers.flatMap Position.batch, out, [], rest, after.batch, h.clock, ?_, ?_,
      h.rearranged, fun _ _ _ _ _ => rfl⟩
    · rw [lineage, h.split, List.nil_append]
    · simp [lineage, h.callers]
  | signal id s =>
    obtain ⟨before, hb, hs⟩ := step_cases ha
    obtain ⟨after, ho⟩ := hs.orders
    refine .inl ⟨(p.callers.take id).flatMap Position.batch, before.batch, _, p.idle, after.batch,
      ho.clock, ?_, ?_, ho.rearranged, fun hover _ hkept hidle hback =>
        none_later hover hb ha hkept hidle hback⟩
    · rw [lineage, flatMap_get Position.batch hb]
      simp only [List.append_assoc]
    · rw [lineage, ho.callers, flatMap_set Position.batch (List.getElem?_eq_some_iff.1 hb).1]
      simp only [List.append_assoc]
  | elapse nanos =>
    cases ha
    exact .inr ⟨nanos, rfl⟩

/-- Nothing became idle later than now. -/
def Past (p : Pool) : Prop := ∀ i ∈ p.lineage, i.since ≤ p.clock

theorem Past.act {a : Act} (h : Past p) (ha : p.act a = some q) : Past q := by
  rcases act_shifted ha with ⟨earlier, out, later, rest, out', hs⟩ | ⟨nanos, rfl⟩
  · intro i hi
    have hold : i ∈ p.lineage → i.since ≤ p.clock := h i
    rw [hs.clock]
    rw [hs.before] at hold
    rw [hs.after] at hi
    simp only [List.mem_append] at hi hold
    have moved : i ∈ out' ∨ i ∈ q.idle → i.since ≤ p.clock := fun hi =>
      (hs.rearranged.mem hi).elim
        (fun hin => hold (hin.elim (.inr ∘ .inl) (.inr ∘ .inr ∘ .inr))) Nat.le_of_eq
    rcases hi with hi | hi | hi | hi
    · exact hold (.inl hi)
    · exact moved (.inl hi)
    · exact hold (.inr (.inr (.inl hi)))
    · exact moved (.inr hi)
  · exact fun i hi => (h i hi).trans (Nat.le_add_right _ _)

theorem Past.fresh {c : PoolConfig} (h₀ : ofConfig? c = some p₀) : Past p₀ := by
  rw [ofConfig?_eq h₀]
  simp [Past, lineage]

/-! ## Runs that do not overtake each other -/

/-- What is taken out and what is idle stays in order, the batches of later runs behind those of
earlier ones, as long as the later run lays its own back first. -/
theorem aged_lineage {a : Act} (h : Aged p.lineage) (hpast : Past p)
    (ho : p.overtakes a = false) (ha : p.act a = some q) : Aged q.lineage := by
  rcases act_shifted ha with ⟨earlier, out, later, rest, out', hs⟩ | ⟨nanos, rfl⟩
  · have same : ∀ l : List Idle, l.Sublist l := List.Sublist.refl
    rw [hs.after]
    cases hs.rearranged with
    | thinned hidle hout =>
      rw [hs.before] at h
      exact h.sublist ((same _).append (hout.append ((same _).append hidle)))
    | @laid conn hidle hout =>
      have hnow : Aged (p.lineage ++ [⟨conn, p.clock⟩]) := h.concat hpast
      rw [hs.before] at hnow
      rw [hidle, hout]
      simp only [List.append_assoc] at hnow ⊢
      exact hnow.sublist ((same _).append ((List.nil_sublist _).append (same _)))
    | @returned back hkept hidle hout =>
      rw [hs.before] at h
      rw [hidle, hout]
      -- Nobody who came later has anything out, so what is laid back stays right before the rest.
      by_cases hback : back = []
      · rw [hback]
        exact h.sublist ((same _).append ((List.nil_sublist _).append (same _)))
      · rw [hs.alone ho back hkept hidle hback] at h ⊢
        exact h.sublist ((same _).append (hkept.append (same _)))
  · exact h

/-! ## Where the order is broken -/

/-- A run lays connections back in front of the idle ones, one of them in front of an older one. -/
def Misplaces (p : Pool) (a : Act) : Prop :=
  ∃ q back i j, p.act a = some q ∧ q.idle = back ++ p.idle ∧ i ∈ back ∧ j ∈ p.idle ∧
    j.since < i.since

theorem Misplaces.not_aged {a : Act} (h : Misplaces p a) (ha : p.act a = some q) :
    ¬ Aged q.idle := by
  obtain ⟨q', back, i, j, ha', hidle, hi, hj, hlt⟩ := h
  cases ha.symm.trans ha'
  intro haged
  rw [hidle, aged_append] at haged
  exact absurd (haged.2.2 i hi j hj) (Nat.not_le.2 hlt)

/-- The idle connections are in order, and so is what each run has out. -/
structure Tidy (p : Pool) : Prop where
  idle : Aged p.idle
  out : ∀ pos ∈ p.callers, Aged pos.batch

theorem Tidy.act {a : Act} (h : Tidy p) (hpast : Past p) (hm : ¬ Misplaces p a)
    (ha : p.act a = some q) : Tidy q := by
  have hpast : ∀ i ∈ p.idle, i.since ≤ p.clock :=
    fun i hi => hpast i (List.mem_append_right _ hi)
  cases a with
  | enter purpose =>
    cases ha
    obtain ⟨out, rest, after, hnew⟩ := p.enter_arrives purpose
    have haged := h.idle
    rw [hnew.split] at haged hpast
    obtain ⟨hout, hrest, hfront⟩ := aged_append.1 haged
    obtain ⟨hidle', hout'⟩ := hnew.rearranged.aged hrest hout
      (fun i hi => hpast i (List.mem_append_right _ hi))
      fun back hkept _ i hi => hfront i (hkept.subset hi)
    refine ⟨hidle', fun pos hpos => ?_⟩
    rw [hnew.callers] at hpos
    rcases List.mem_append.1 hpos with hold | hnew
    · exact h.out pos hold
    · rwa [List.mem_singleton.1 hnew]
  | signal id s =>
    obtain ⟨before, hb, hs⟩ := step_cases ha
    obtain ⟨after, ho⟩ := hs.orders
    obtain ⟨hidle', hout'⟩ := ho.rearranged.aged h.idle (h.out before (List.mem_of_getElem? hb))
      hpast fun back _ hidle i hi j hj => Nat.le_of_not_lt fun hlt =>
        hm ⟨q, back, i, j, ha, hidle, hi, hj, hlt⟩
    refine ⟨hidle', fun pos hpos => ?_⟩
    rw [ho.callers] at hpos
    rcases List.mem_or_eq_of_mem_set hpos with hold | rfl
    · exact h.out pos hold
    · exact hout'
  | elapse nanos =>
    cases ha
    exact ⟨h.idle, h.out⟩

theorem Tidy.fresh {c : PoolConfig} (h₀ : ofConfig? c = some p₀) : Tidy p₀ := by
  rw [ofConfig?_eq h₀]
  exact ⟨List.Pairwise.nil, by simp⟩

/-! ## Taking from an ordered list -/

/-- An eviction run takes out the connections that were idle for longest. -/
theorem evict_oldest (h : Aged p.idle) (id : Nat) :
    ∃ out rest, p.idle = out ++ rest ∧
      out.length = min p.config.effectiveTestsPerEvictionRun p.idle.length ∧
      p.evict id = { p with idle := rest }.examine id [] out ∧
      ∀ i ∈ out, ∀ j ∈ rest, i.since ≤ j.since := by
  have hsplit := List.take_append_drop p.config.effectiveTestsPerEvictionRun p.idle
  refine ⟨_, _, hsplit.symm, List.length_take, rfl, ?_⟩
  rw [← hsplit] at h
  exact (aged_append.1 h).2.2

theorem isEvictable_of_le {i j : Idle} (h : p.isEvictable j = true) (hle : i.since ≤ j.since) :
    p.isEvictable i = true := by
  obtain ⟨d, hd, hlimit⟩ := (Option.any_eq_true _ _).1 h
  have hlimit : d.nanos ≤ p.clock - j.since := by simpa using hlimit
  refine (Option.any_eq_true _ _).2 ⟨d, hd, ?_⟩
  simp only [decide_eq_true_eq]
  omega

/-- The idle connection that a caller takes is the one that was used last. -/
theorem takeIdle_youngest (h : Aged p.idle) {conn : Nat} (ht : p.takeIdle = (some conn, q)) :
    ∃ before i, p.idle = before ++ [i] ∧ i.conn = conn ∧ ∀ j ∈ p.idle, j.since ≤ i.since := by
  rcases p.takeIdle_cases with ⟨before, i, gone, hidle, hi, hgone, htake⟩ | ⟨-, htake⟩
  · rw [hidle, aged_append] at h
    obtain ⟨-, hrest, hbefore⟩ := h
    obtain rfl : gone = [] := by
      refine List.eq_nil_iff_forall_not_mem.2 fun g hg => ?_
      have hold := isEvictable_of_le (hgone g hg) (List.rel_of_pairwise_cons hrest hg)
      simp [hi] at hold
    cases htake.symm.trans ht
    refine ⟨before, i, hidle, rfl, fun j hj => ?_⟩
    rw [hidle] at hj
    rcases List.mem_append.1 hj with hb | hj
    · exact hbefore j hb i (List.mem_singleton_self i)
    · rw [List.mem_singleton.1 hj]
  · cases htake.symm.trans ht

/-- The idle connections are oldest first; so an eviction run examines those that were idle for
longest, and a caller takes the one that was used last. -/
structure InOrder (p : Pool) : Prop where
  aged : Aged p.idle
  examined : ∀ id, ∃ out rest, p.idle = out ++ rest ∧
    out.length = min p.config.effectiveTestsPerEvictionRun p.idle.length ∧
    p.evict id = { p with idle := rest }.examine id [] out ∧
    ∀ i ∈ out, ∀ j ∈ rest, i.since ≤ j.since
  taken : ∀ conn q, p.takeIdle = (some conn, q) →
    ∃ before i, p.idle = before ++ [i] ∧ i.conn = conn ∧ ∀ j ∈ p.idle, j.since ≤ i.since

theorem Aged.inOrder (h : Aged p.idle) : InOrder p :=
  ⟨h, evict_oldest h, fun _ _ => takeIdle_youngest h⟩

/-! ## Without tests -/

/-- Nobody has anything out. -/
structure Untested (c : PoolConfig) (p : Pool) : Prop where
  config : p.config = c
  out : ∀ pos ∈ p.callers, pos.batch = []

theorem Rearranged.out_sublist {clock : Nat} {idle out idle' out' : List Idle}
    (h : Rearranged clock idle out idle' out') : out'.Sublist out := by
  cases h with
  | thinned _ hout => exact hout
  | laid _ hout => simp [hout]
  | returned _ _ hout => simp [hout]

theorem Untested.act {c : PoolConfig} {a : Act} (h : Untested c p)
    (hc : c.testWhileIdle = false) (ha : p.act a = some q) : Untested c q := by
  cases a with
  | enter purpose =>
    cases ha
    obtain ⟨out, rest, after, hnew⟩ := p.enter_arrives purpose
    refine ⟨hnew.config.trans h.config, fun pos hpos => ?_⟩
    rw [hnew.callers] at hpos
    rcases List.mem_append.1 hpos with hold | hpos
    · exact h.out pos hold
    · rw [List.mem_singleton.1 hpos]
      exact hnew.untested (h.config ▸ hc)
  | signal id s =>
    obtain ⟨before, hb, hs⟩ := step_cases ha
    obtain ⟨after, ho⟩ := hs.orders
    refine ⟨ho.config.trans h.config, fun pos hpos => ?_⟩
    rw [ho.callers] at hpos
    rcases List.mem_or_eq_of_mem_set hpos with hold | rfl
    · exact h.out pos hold
    · have hnone := ho.rearranged.out_sublist
      rw [h.out before (List.mem_of_getElem? hb)] at hnone
      exact List.sublist_nil.1 hnone
  | elapse nanos =>
    cases ha
    exact ⟨h.config, h.out⟩

theorem Untested.not_overtakes {c : PoolConfig} (h : Untested c p) (a : Act) :
    p.overtakes a = false := by
  cases a with
  | signal id s =>
    cases hpos : p.callers[id]? with
    | none => simp [overtakes, hpos]
    | some pos =>
      have hidle := Position.batch_eq_nil_iff.1 (h.out pos (List.mem_of_getElem? hpos))
      simp [overtakes, hpos, hidle]
  | _ => rfl

theorem Untested.fresh {c : PoolConfig} (h₀ : ofConfig? c = some p₀) : Untested c p₀ := by
  rw [ofConfig?_eq h₀]
  exact ⟨rfl, by simp⟩

/-- In a run in which no eviction run lays connections back while a later one is still examining,
the idle connections are in order. In any run, the first step after which they are not is one that
lays a connection in front of an older one. If idle connections are not tested, they are always in
order. -/
theorem idle_in_order {c : PoolConfig} (h₀ : ofConfig? c = some p₀) :
    (∀ p, Reaches (fun q a => q.overtakes a = false) p₀ p → InOrder p) ∧
      (∀ p a q, Reaches (fun q a => ¬ Misplaces q a) p₀ p → p.act a = some q →
        (InOrder q ↔ ¬ Misplaces p a)) ∧
      (c.testWhileIdle = false → ∀ p, Reachable c p → InOrder p) := by
  have fresh : Aged p₀.lineage := by
    rw [ofConfig?_eq h₀]
    exact List.Pairwise.nil
  have idle : ∀ {p}, Aged p.lineage → InOrder p := fun h =>
    (h.sublist (List.sublist_append_right _ _)).inOrder
  refine ⟨fun p hp => ?_, fun p a q hp ha => ?_, fun hc p hp => ?_⟩
  · refine idle (hp.keeps (P := fun p => Aged p.lineage ∧ Past p) (fun q r a h ho ha => ?_)
      ⟨fresh, .fresh h₀⟩).1
    exact ⟨aged_lineage h.1 h.2 ho ha, h.2.act ha⟩
  · obtain ⟨htidy, hpast⟩ := hp.keeps (P := fun p => Tidy p ∧ Past p)
      (fun q r a h hm ha => ⟨h.1.act h.2 hm ha, h.2.act ha⟩) ⟨.fresh h₀, .fresh h₀⟩
    exact ⟨fun h hm => hm.not_aged ha h.aged, fun hm => (htidy.act hpast hm ha).idle.inOrder⟩
  · obtain ⟨p₁, h₁, hr⟩ := hp
    cases h₀.symm.trans h₁
    refine idle (hr.keeps (P := fun p => Aged p.lineage ∧ Past p ∧ Untested c p)
      (fun q r a h _ ha => ?_) ⟨fresh, .fresh h₀, .fresh h₀⟩).1
    obtain ⟨haged, hpast, hun⟩ := h
    exact ⟨aged_lineage haged hpast (hun.not_overtakes a) ha, hpast.act ha, hun.act hc ha⟩

/-- Two commands give their connections back one after the other; then two callers make eviction
runs, the second before the test of the first is answered. -/
def patrols : List Act :=
  [.enter .command, .signal 0 .granted, .signal 0 (.connected 0), .enter .command,
    .signal 1 .granted, .signal 1 (.connected 1), .signal 0 .succeeded, .elapse 1000000000,
    .signal 1 .succeeded, .enter .command, .elapse 1000000000, .enter .command]

/-- The later run ends first. -/
theorem idle_in_order_nested : ∃ p₀ p, ofConfig? patrolled = some p₀ ∧
    Reaches (fun q a => q.overtakes a = false) p₀ p ∧ p.idle = [⟨0, 0⟩, ⟨1, 1000000000⟩] ∧
    InOrder p := by
  obtain ⟨p₀, p, h₀, hp, hidle⟩ := exists_of_run (fun q a => q.overtakes a = false) patrolled
    (patrols ++ [.signal 3 .succeeded, .signal 2 .succeeded])
    (fun p => p.idle == [⟨0, 0⟩, ⟨1, 1000000000⟩]) (by decide +kernel)
  exact ⟨p₀, p, h₀, hp, by simpa using hidle, (idle_in_order h₀).1 p hp⟩

/-- The earlier run ends first, and the later one lays the younger connection in front; the caller
that then takes a connection is given the one that was idle for longest. -/
theorem idle_out_of_order : ∃ p, Reachable patrolled p ∧ ¬ Aged p.idle ∧
    p.takeIdle.1 = some 0 := by
  obtain ⟨p₀, p, h₀, hp, hrun⟩ := exists_of_run (fun _ _ => True) patrolled
    (patrols ++ [.signal 2 .succeeded, .signal 3 .succeeded])
    (fun p => decide (¬ Aged p.idle) && p.takeIdle.1 == some 0) (by decide +kernel)
  simp only [Bool.and_eq_true, beq_iff_eq, decide_eq_true_eq] at hrun
  exact ⟨p, ⟨p₀, h₀, hp⟩, hrun⟩

end Pool

end Muster
