import Muster.Proofs.Attempts

/-!
# How attempts end

An attempt of a task that is not cancelled ends by itself, on a protocol fault or on any other; the
record tells which (`Setup.ending?`), and how many ends of the second kind came in a row
(`Setup.drops`). What the task has to do about it follows from both (`Setup.due?`): it fails, or it
reconnects. `Setup.Heeded` says that every end is heeded at once, and that a task neither fails nor
reconnects without one.
-/
namespace Muster

/-- How an attempt ends, unless its task is cancelled. -/
inductive Ending where
  /-- On a protocol fault. -/
  | fatal
  | dropped
deriving DecidableEq, Repr

def Fault.ending (f : Fault) : Ending := if f.isFatal then .fatal else .dropped

namespace Mark

/-- A command that opens a stream: an attempt begins. -/
def isAttempt : Mark → Bool
  | .stored _ (.subscribe _) _ => true
  | _ => false

/-- A task writes that it has failed. -/
def isFailure : Mark → Bool
  | .published _ .failed => true
  | _ => false

/-- A task writes that it is going to open its stream again. -/
def isRetreat : Mark → Bool
  | .published _ .reconnecting => true
  | _ => false

end Mark

section
variable (id : Nat)

@[simp] theorem Mark.isAttempt_published (s : Status) : (published id s).isAttempt = false := rfl

@[simp] theorem Mark.isAttempt_ended : (ended id).isAttempt = false := rfl

@[simp] theorem Mark.isFailure_failed : (published id .failed).isFailure = true := rfl

@[simp] theorem Mark.isFailure_reconnecting : (published id .reconnecting).isFailure = false := rfl

@[simp] theorem Mark.isFailure_ended : (ended id).isFailure = false := rfl

@[simp] theorem Mark.isRetreat_failed : (published id .failed).isRetreat = false := rfl

@[simp] theorem Mark.isRetreat_reconnecting : (published id .reconnecting).isRetreat = true := rfl

@[simp] theorem Mark.isRetreat_ended : (ended id).isRetreat = false := rfl

end

/-- How many attempts a task has made. -/
def attempts (id : Nat) (trace : List Mark) : Nat :=
  trace.countP fun m => m.isAttempt && m.owner? == some id

/-- How often a task wrote that it was going to open its stream again. -/
def retreats (id : Nat) (trace : List Mark) : Nat := trace.count (.published id .reconnecting)

namespace Setup

variable (setup : Setup)

/-- The task whose attempt ends with a mark, and how. No fault with which a stream is refused, and
nothing with which one comes to its end, is a protocol fault; an item, and what a listener answers,
may be one. -/
def ending? : Mark → Option (Nat × Ending)
  | .stored (.task id) (.subscribe _) (some _) => some (id, .dropped)
  | .returned id _ h (some f) => if h.isBroken (some f) then some (id, f.ending) else none
  | .read id (.message p) =>
    match setup.screen p with
    | .error f => some (id, f.ending)
    | .ok m =>
      match Event.decode m with
      | .error _ => some (id, .fatal)
      | .ok _ => none
  | .read id (.lagged _) => some (id, .dropped)
  | .read id .ended => some (id, .dropped)
  | _ => none

/-- How many attempts of a task were dropped since it was started or became active. -/
def drops (id : Nat) : List Mark → Nat
  | [] => 0
  | m :: past =>
    if m = .published id .active then 0
    else if setup.ending? m = some (id, .dropped) then drops id past + 1
    else drops id past

/-- What a task writes at the end of an attempt, with so many dropped in a row: that it has failed
if this is a protocol fault, or as many as it may make, else that it reconnects. -/
def verdict (e : Ending) (drops : Nat) : Status :=
  if e = .fatal ∨ 0 < setup.config.restart.maxAttempts ∧ drops = setup.config.restart.maxAttempts
  then .failed else .reconnecting

/-- The mark that has to follow in a record: the verdict on an attempt that has ended, and after a
failure the end of the task. -/
def due? : List Mark → Option Mark
  | [] => none
  | m :: past =>
    match setup.ending? m with
    | some (id, e) => some (.published id (setup.verdict e (setup.drops id (m :: past))))
    | none =>
      match m with
      | .published id .failed => some (.ended id)
      | _ => none

/-- A mark is the one that has to follow, a verdict is not given without an end, and a task that has
ended makes no mark. -/
def Heeds (past : List Mark) (m : Mark) : Prop :=
  (∀ x, setup.due? past = some x → m = x) ∧
  (m.isFailure = true ∨ m.isRetreat = true → setup.due? past = some m) ∧
  ∀ id, m.owner? = some id → .ended id ∉ past

/-- All marks of a record heed what came before. -/
def Heeded : List Mark → Prop
  | [] => True
  | m :: past => setup.Heeds past m ∧ Heeded past

/-- Marks that bear on what becomes of a task. -/
def weighs : Mark → Bool
  | .stored _ (.subscribe _) _ | .published _ _ | .ended _ => true
  | m => (setup.ending? m).isSome

/-- Marks of one task, or of none, that do not weigh. -/
def Weightless (id : Nat) (ms : List Mark) : Prop :=
  ∀ m ∈ ms, setup.weighs m = false ∧ (m.owner? = none ∨ m.owner? = some id)

/-- How a task goes on to wait after so many attempts were dropped in a row. -/
def backoff : Nat → Backoff
  | 0 => .ofPolicy setup.config.restart
  | n + 1 => (backoff n).next.2

end Setup

section
variable {setup : Setup} {id j : Nat} {m : Mark} {e : Ending} {ms past trace : List Mark}

theorem Setup.policy_backoff (n : Nat) : (setup.backoff n).policy = setup.config.restart := by
  induction n with
  | zero => rfl
  | succ n ih => exact ih

theorem Setup.patience_backoff (n : Nat) : (setup.backoff n).patience = none := by
  induction n with
  | zero => rfl
  | succ n ih => exact ih

theorem Setup.reset_backoff (n : Nat) : (setup.backoff n).reset = setup.backoff 0 := by
  rw [Backoff.reset, patience_backoff, policy_backoff]
  rfl

/-! ## Marks that do not matter -/

theorem Setup.owner?_of_ending? (h : setup.ending? m = some (id, e)) : m.owner? = some id := by
  unfold Setup.ending? at h
  split at h
  · cases h; rfl
  · split at h <;> cases h
    rfl
  · split at h
    · cases h; rfl
    · split at h <;> cases h
      rfl
  · cases h; rfl
  · cases h; rfl
  · cases h

theorem Setup.weighs_of_isAside (h : m.isAside = true) : setup.weighs m = false := by
  cases m with
  | stored a call f => cases a <;> cases call <;> first | rfl | cases h
  | _ => first | rfl | cases h

theorem Setup.Weightless.nil : setup.Weightless id [] := fun _ hm => by cases hm

theorem Setup.Weightless.cons (h : setup.Weightless id ms) (hm : setup.weighs m = false)
    (ho : m.owner? = none ∨ m.owner? = some id) : setup.Weightless id (m :: ms) := fun n hn => by
  rcases List.mem_cons.1 hn with rfl | hn
  · exact ⟨hm, ho⟩
  · exact h n hn

/-- What a mark that does not weigh is not. -/
theorem Setup.of_not_weighs (h : setup.weighs m = false) :
    setup.ending? m = none ∧ m.isAttempt = false ∧ (∀ id s, m ≠ .published id s) ∧
      ∀ id, m ≠ .ended id := by
  unfold Setup.weighs at h
  split at h
  · cases h
  · cases h
  · cases h
  · next hsub hpub hend =>
    refine ⟨by simpa using h, ?_, fun id s => hpub id s, fun id => hend id⟩
    unfold Mark.isAttempt
    split
    · exact (hsub _ _ _ rfl).elim
    · rfl

/-- A mark of somebody else, or one that bears on no task. -/
def Setup.Spares (setup : Setup) (id : Nat) (m : Mark) : Prop :=
  m.owner? ≠ some id ∨ setup.weighs m = false

/-- Weightless marks spare everybody, and count for nothing. -/
theorem Setup.Weightless.spares (h : setup.Weightless j ms) : ∀ m ∈ ms, setup.Spares id m :=
  fun m hm => .inr (h m hm).1

theorem Setup.Weightless.counts (h : setup.Weightless id ms) :
    ms.countP Mark.isAttempt = 0 ∧ ms.countP Mark.isFailure = 0 ∧ ms.countP Mark.isRetreat = 0 := by
  simp only [List.countP_eq_zero, Bool.not_eq_true]
  have light := fun m hm => Setup.of_not_weighs (h m hm).1
  refine ⟨fun m hm => (light m hm).2.1, fun m hm => ?_, fun m hm => ?_⟩ <;>
    (obtain ⟨-, -, hpub, -⟩ := light m hm; cases m <;> first | rfl | exact (hpub _ _ rfl).elim)

/-- A task's attempts, drops and retreats are told by the marks that concern it. -/
theorem tallied_append (h : ∀ m ∈ ms, setup.Spares id m) (past : List Mark) :
    setup.drops id (ms ++ past) = setup.drops id past ∧
    attempts id (ms ++ past) = attempts id past ∧ retreats id (ms ++ past) = retreats id past ∧
    (.ended id ∈ ms ++ past ↔ .ended id ∈ past) := by
  induction ms with
  | nil => exact ⟨rfl, rfl, rfl, .rfl⟩
  | cons m rest ih =>
    obtain ⟨hd, ha, hr, he⟩ := ih fun n hn => h n (List.mem_cons_of_mem _ hn)
    have hm : setup.ending? m ≠ some (id, .dropped) ∧
        (m.isAttempt && m.owner? == some id) = false ∧ (∀ s, m ≠ .published id s) ∧
        m ≠ .ended id := by
      rcases h m List.mem_cons_self with hother | hlight
      · refine ⟨fun hm => hother (Setup.owner?_of_ending? hm), by simp [hother], ?_, ?_⟩
        · rintro s rfl
          exact hother rfl
        · rintro rfl
          exact hother rfl
      · obtain ⟨hnone, hattempt, hpub, hend⟩ := Setup.of_not_weighs hlight
        exact ⟨by simp [hnone], by simp [hattempt], hpub id, hend id⟩
    obtain ⟨hdrop, hattempt, hpub, hend⟩ := hm
    refine ⟨?_, ?_, ?_, ?_⟩
    · simp only [List.cons_append, Setup.drops, if_neg (hpub _), if_neg hdrop, hd]
    · simpa [attempts, hattempt] using ha
    · simpa [retreats, List.count_cons, hpub] using hr
    · simpa [hend.symm] using he

/-! ## Heeded records -/

theorem Setup.Heeded.suffix (h : setup.Heeded trace) (hs : past <:+ trace) : setup.Heeded past := by
  induction trace with
  | nil => exact (List.suffix_nil.1 hs) ▸ h
  | cons m rest ih =>
    rcases List.suffix_cons_iff.1 hs with rfl | hs
    · exact h
    · exact ih h.2 hs

/-- Marks that do not weigh call for none. -/
theorem Setup.due?_of_not_weighs (h : setup.weighs m = false) : setup.due? (m :: past) = none := by
  obtain ⟨hnone, -, hpub, -⟩ := of_not_weighs h
  simp only [due?, hnone]
  split
  · exact (hpub _ _ rfl).elim
  · rfl

/-- A task that has not ended makes weightless marks, where none is due. -/
theorem Setup.Heeded.weightless (h : setup.Heeded past) (hdue : setup.due? past = none)
    (hms : setup.Weightless id ms) (hend : .ended id ∉ past) :
    setup.Heeded (ms ++ past) ∧ setup.due? (ms ++ past) = none := by
  induction ms with
  | nil => exact ⟨h, hdue⟩
  | cons m rest ih =>
    have hrest : setup.Weightless id rest := fun n hn => hms n (List.mem_cons_of_mem _ hn)
    obtain ⟨hheeded, hnone⟩ := ih hrest
    obtain ⟨hlight, howner⟩ := hms m List.mem_cons_self
    refine ⟨⟨⟨fun x hx => ?_, fun hv => ?_, fun j hj hmem => ?_⟩, hheeded⟩,
      due?_of_not_weighs hlight⟩
    · cases hnone.symm.trans hx
    · obtain ⟨-, -, hpub, -⟩ := of_not_weighs hlight
      cases m with
      | published i s => exact (hpub i s rfl).elim
      | _ => simp [Mark.isFailure, Mark.isRetreat] at hv
    · rcases howner with ho | ho <;> cases ho.symm.trans hj
      exact hend ((tallied_append hrest.spares past).2.2.2.1 hmem)

/-- Where nothing is due, a task that has not ended may make any mark but a verdict. -/
theorem Setup.heeds_of_settled (hdue : setup.due? past = none) (ho : m.owner? = some id)
    (hend : .ended id ∉ past) (hm : m.isFailure = false ∧ m.isRetreat = false) :
    setup.Heeds past m := by
  refine ⟨fun x hx => ?_, fun h => ?_, fun j hj => ?_⟩
  · cases hdue.symm.trans hx
  · simp [hm.1, hm.2] at h
  · cases ho.symm.trans hj
    exact hend

/-- An end is no verdict. -/
theorem Setup.plain_of_ending? (h : setup.ending? m = some (id, e)) :
    m.isFailure = false ∧ m.isRetreat = false ∧ ∀ i s, m ≠ .published i s := by
  cases m with
  | published i s => cases h
  | _ => exact ⟨rfl, rfl, by simp⟩

theorem Setup.due?_of_ending? (h : setup.ending? m = some (id, e)) (past : List Mark) :
    setup.due? (m :: past) =
      some (.published id (setup.verdict e (setup.drops id (m :: past)))) := by
  simp only [due?, h]

theorem Setup.drops_of_ending? (h : setup.ending? m = some (id, e)) (past : List Mark) :
    setup.drops id (m :: past) = setup.drops id past + if e = .dropped then 1 else 0 := by
  obtain ⟨-, -, hpub⟩ := plain_of_ending? h
  rw [drops, if_neg (hpub _ _), h]
  cases e <;> simp

theorem attempts_cons (ho : m.owner? = some id) (past : List Mark) :
    attempts id (m :: past) = attempts id past + m.isAttempt.toNat := by
  cases hm : m.isAttempt <;> simp [attempts, hm, ho]

/-- What has to follow a mark does, unless nothing has happened since. -/
theorem Setup.Heeded.followed {x : Mark} (h : setup.Heeded trace) (hs : past <:+ trace)
    (hx : setup.due? past = some x) (hdue : setup.due? trace = none) :
    ∃ later, trace = later ++ x :: past := by
  obtain ⟨later, rfl⟩ := hs
  rcases List.eq_nil_or_concat later with rfl | ⟨rest, y, rfl⟩
  · cases hx.symm.trans hdue
  · have hy : setup.Heeded (y :: past) := h.suffix ⟨rest, by simp⟩
    obtain rfl : y = x := hy.1.1 x hx
    exact ⟨rest, by simp⟩

/-- A task that has ended makes no more marks. -/
theorem Setup.Heeded.silent {later : List Mark}
    (h : setup.Heeded (later ++ .ended id :: past)) : ∀ m ∈ later, m.owner? ≠ some id := by
  intro m hm howner
  obtain ⟨after, before, rfl⟩ := List.append_of_mem hm
  have hm : setup.Heeded (m :: (before ++ .ended id :: past)) := h.suffix ⟨after, by simp⟩
  exact hm.1.2.2 id howner (by simp)

/-- A task that wrote that it has failed has ended, or is about to. -/
theorem Setup.Heeded.failed (h : setup.Heeded trace) (hf : .published id .failed ∈ trace) :
    setup.due? trace = some (.ended id) ∨ .ended id ∈ trace := by
  obtain ⟨later, past, rfl⟩ := List.append_of_mem hf
  rcases List.eq_nil_or_concat later with rfl | ⟨rest, y, rfl⟩
  · exact .inl rfl
  · have hy : setup.Heeded (y :: .published id .failed :: past) := h.suffix ⟨rest, by simp⟩
    obtain rfl : y = .ended id := hy.1.1 _ rfl
    exact .inr (by simp)

/-- A status that has to be written is the verdict on the attempt that ended just before. -/
theorem Setup.due?_published {s : Status} (h : setup.due? trace = some (.published id s)) :
    ∃ m past e, trace = m :: past ∧ setup.ending? m = some (id, e) ∧
      s = setup.verdict e (setup.drops id trace) := by
  cases trace with
  | nil => cases h
  | cons m past =>
    cases hm : setup.ending? m with
    | none =>
      simp only [due?, hm] at h
      split at h <;> cases h
    | some p =>
      obtain ⟨j, e⟩ := p
      rw [due?_of_ending? hm] at h
      cases h
      exact ⟨m, past, e, rfl, hm, rfl⟩

/-- A task that failed did so on the end of an attempt, and nothing of it came after that. -/
theorem Setup.Heeded.of_failed (h : setup.Heeded trace) (hdue : setup.due? trace = none)
    (hf : .published id .failed ∈ trace) :
    ∃ later m past e, trace = later ++ .ended id :: .published id .failed :: m :: past ∧
      setup.ending? m = some (id, e) ∧ setup.verdict e (setup.drops id (m :: past)) = .failed ∧
      setup.drops id trace = setup.drops id (m :: past) := by
  obtain ⟨before, past, rfl⟩ := List.append_of_mem hf
  have hs : .published id .failed :: past <:+ before ++ .published id .failed :: past :=
    ⟨before, rfl⟩
  obtain ⟨m, past, e, rfl, hm, hv⟩ := due?_published ((h.suffix hs).1.2.1 (.inl rfl))
  obtain ⟨later, hlater⟩ := h.followed hs rfl hdue
  have hsilent : ∀ x ∈ later, x.owner? ≠ some id := (hlater ▸ h).silent
  refine ⟨later, m, past, e, hlater, hm, hv.symm, ?_⟩
  rw [hlater, (tallied_append (fun x hx => .inl (hsilent x hx)) _).1]
  simp [drops, ending?]

/-- A task fails once at most. -/
theorem Setup.Heeded.failed_once (h : setup.Heeded trace) :
    trace.count (.published id .failed) ≤ 1 := by
  induction trace with
  | nil => simp
  | cons m past ih =>
    rw [List.count_cons]
    split
    · next hm =>
      obtain rfl : m = .published id .failed := by simpa using hm
      -- Had it failed before, it would have to end now, or could make no mark.
      have hnew : .published id .failed ∉ past := fun hf => by
        rcases h.2.failed hf with hdue | hend
        · cases h.1.1 _ hdue
        · exact h.1.2.2 id rfl hend
      exact Nat.le_of_eq (congrArg (· + 1) (List.count_eq_zero_of_not_mem hnew))
    · exact ih h.2

/-! ## Ends in a row -/

/-- What a task wrote at the end of an attempt. -/
def Mark.isVerdict (id : Nat) (m : Mark) : Bool :=
  m == .published id .failed || m == .published id .reconnecting

theorem Setup.verdict_eq_failed {n : Nat} : setup.verdict e n = .failed ↔
    e = .fatal ∨ 0 < setup.config.restart.maxAttempts ∧
      n = setup.config.restart.maxAttempts := by
  unfold verdict
  split <;> simp_all

theorem Setup.verdict_cases (setup : Setup) (e : Ending) (n : Nat) :
    setup.verdict e n = .failed ∨ setup.verdict e n = .reconnecting := by
  unfold verdict
  split
  · exact .inl rfl
  · exact .inr rfl

/-- Whatever status has to be written next is a verdict. -/
theorem Setup.isVerdict_of_due {s : Status} (h : setup.due? trace = some (.published id s)) :
    Mark.isVerdict id (.published id s) = true := by
  unfold due? at h
  split at h
  · cases h
  · split at h
    · next e _ =>
      cases h
      simpa [Mark.isVerdict] using setup.verdict_cases e _
    · split at h <;> cases h

/-- How many verdicts a task has to give. -/
def Setup.owes (setup : Setup) (id : Nat) (trace : List Mark) : Nat :=
  match setup.due? trace with
  | some (.published i _) => if i = id then 1 else 0
  | _ => 0

theorem Setup.owes_of_due {s : Status} (h : setup.due? trace = some (.published id s)) :
    setup.owes id trace = 1 := by
  simp [owes, h]

theorem Setup.owes_of_not_due (h : ∀ s, setup.due? trace ≠ some (.published id s)) :
    setup.owes id trace = 0 := by
  unfold owes
  split
  · next i s hdue =>
    rw [if_neg]
    rintro rfl
    exact h s hdue
  · rfl

/-- A task that was never active, and met no protocol fault, has given a verdict on each attempt
that was dropped, or is about to. -/
theorem Setup.Heeded.drops_eq (h : setup.Heeded trace)
    (hlow : ∀ m ∈ trace, m ≠ .published id .active ∧ setup.ending? m ≠ some (id, .fatal)) :
    setup.drops id trace = trace.countP (Mark.isVerdict id) + setup.owes id trace := by
  induction trace with
  | nil => rfl
  | cons m past ih =>
    obtain ⟨⟨hfollows, hverdict, -⟩, hpast⟩ := h
    obtain ⟨hactive, hfatal⟩ := hlow m List.mem_cons_self
    have ih := ih hpast fun n hn => hlow n (List.mem_cons_of_mem _ hn)
    -- No verdict was due, unless this is one.
    have unowed : m.isVerdict id = false → setup.owes id past = 0 := fun hm =>
      owes_of_not_due fun s hs => by
        rw [hfollows _ hs, isVerdict_of_due hs] at hm
        cases hm
    rw [drops, if_neg hactive, List.countP_cons]
    cases hm : m.isVerdict id with
    | true =>
      have hmine : ∃ s, m = .published id s ∧ (m.isFailure = true ∨ m.isRetreat = true) := by
        rcases Bool.or_eq_true_iff.1 hm with hm | hm
        · obtain rfl := eq_of_beq hm
          exact ⟨_, rfl, .inl rfl⟩
        · obtain rfl := eq_of_beq hm
          exact ⟨_, rfl, .inr rfl⟩
      obtain ⟨s, rfl, hs⟩ := hmine
      have hpaid : setup.owes id (.published id s :: past) = 0 := owes_of_not_due fun s' => by
        cases s <;> simp [due?, ending?]
      rw [if_neg (by simp [ending?]), ih, owes_of_due (hverdict hs), hpaid]
      rfl
    | false =>
      by_cases hdrop : setup.ending? m = some (id, .dropped)
      · have howes : setup.owes id (m :: past) = 1 := by
          refine owes_of_due (s := setup.verdict .dropped (setup.drops id (m :: past))) ?_
          simp only [due?, hdrop]
        rw [if_pos hdrop, ih, unowed hm, howes]
        rfl
      · have howes : setup.owes id (m :: past) = 0 := owes_of_not_due fun s hs => by
          cases he : setup.ending? m with
          | none =>
            simp only [due?, he] at hs
            split at hs <;> cases hs
          | some p =>
            obtain ⟨i, e⟩ := p
            simp only [due?, he] at hs
            cases hs
            cases e with
            | fatal => exact hfatal he
            | dropped => exact hdrop he
        rw [if_neg hdrop, ih, unowed hm, howes]
        rfl

/-- Where just one task writes, all retreats are its own. -/
theorem countP_isRetreat (h : ∀ j s, .published j s ∈ trace → j = id) :
    trace.countP Mark.isRetreat = retreats id trace := by
  refine List.countP_congr fun m hm => ?_
  unfold Mark.isRetreat
  split
  · simp [h _ _ hm]
  · next hne => simpa using fun hm => hne id hm

theorem countP_isVerdict (id : Nat) (trace : List Mark) :
    trace.countP (Mark.isVerdict id) = retreats id trace + trace.count (.published id .failed) := by
  induction trace with
  | nil => rfl
  | cons m past ih =>
    simp only [retreats, List.countP_cons, List.count_cons, Mark.isVerdict] at ih ⊢
    by_cases hf : m = .published id .failed
    · subst hf
      simp [ih]
      omega
    · simp [hf, ih]
      omega

end

end Muster
