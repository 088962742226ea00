import Muster.Proofs.Attempts

/-!
# Eras of a listener

A listener that has no registration in a cluster may have one later, and a task opens one stream
after the other. An era of a listener with a task begins with the later of both marks. Within an
era, what the task still owes to the listener can be told: the calls that were due when it began,
and those for the queues that the task took since.
-/
namespace Muster

/-- The task opens a stream, or the listener joins a cluster where it had no registration. -/
def Mark.begins (c : String) (id : Nat) (l : Listener) (past : List Mark) : Mark → Bool
  | .opened i _ _ => i = id
  | .attached c' l' _ => c' = c ∧ l' = l ∧ l ∉ registered c past
  | _ => false

/-- The calls that are due and were not made yet. -/
def Attempt.owing (a : Attempt) : List Visit := a.agenda.drop a.calls.length

section
variable (c : String) (id : Nat) (l : Listener)

/-- What happened in the present era, newest first. -/
def era : List Mark → List Mark
  | [] => []
  | m :: past => if m.begins c id l past then [] else m :: era past

/-- The record as it was when the present era began. -/
def dawn : List Mark → List Mark
  | [] => []
  | m :: past => if m.begins c id l past then m :: past else dawn past

/-- In the present era the task called the listener to synchronise, and it did so. -/
def Synced (trace : List Mark) : Prop :=
  [Mark.returned id l .sync none, .called id l .sync].Sublist (era c id l trace)

/-- The listener joined when no call to synchronise it was under way, and it was in none of the
queues that the task took since. -/
def Missed (setup : Setup) (trace : List Mark) : Prop :=
  ∃ joined past, dawn c id l trace = .attached c l joined :: past ∧
    (l, .sync) ∉ (attempt setup c id past).owing ∧
    ∀ queue, .took id c queue ∈ era c id l trace → l ∉ queue

/-- No message was taken since the listener joined. -/
def Late (trace : List Mark) : Prop :=
  ∀ m audience, .dispatched id m audience ∉ era c id l trace

/-- One registration of the listener ended while it was queued, and another one stayed. -/
def Dropped (trace : List Mark) : Prop :=
  ∃ past, .detached c l :: past <:+ trace ∧ dawn c id l trace <:+ past ∧
    l ∈ queued c past ∧ l ∈ registered c (.detached c l :: past)

/-- Once a task has made a mark, whoever comes joins it, and no other task takes the queue. -/
def Tended : List Mark → Prop
  | [] => True
  | m :: past => ((∃ n ∈ past, n.owner? = some id) →
      (∀ l joined, m = .attached c l joined → joined = true) ∧
      ∀ i queue, m = .took i c queue → i = id) ∧ Tended past

end

section
variable {setup : Setup} {c : String} {id : Nat} {l : Listener} {m : Mark}
  {past trace newer older : List Mark}

theorem era_of_begins (h : m.begins c id l past = true) :
    era c id l (m :: past) = [] ∧ dawn c id l (m :: past) = m :: past := by
  simp [era, dawn, h]

theorem era_of_not_begins (h : m.begins c id l past = false) :
    era c id l (m :: past) = m :: era c id l past ∧
      dawn c id l (m :: past) = dawn c id l past := by
  simp [era, dawn, h]

theorem era_append_dawn : era c id l trace ++ dawn c id l trace = trace := by
  induction trace with
  | nil => rfl
  | cons m past ih =>
    cases h : m.begins c id l past with
    | true => rw [(era_of_begins h).1, (era_of_begins h).2, List.nil_append]
    | false => rw [(era_of_not_begins h).1, (era_of_not_begins h).2, List.cons_append, ih]

/-- An earlier moment of the same era. -/
theorem era_split (h : era c id l trace = newer ++ older) :
    era c id l (older ++ dawn c id l trace) = older ∧
      dawn c id l (older ++ dawn c id l trace) = dawn c id l trace := by
  induction trace generalizing newer with
  | nil =>
    obtain ⟨-, rfl⟩ := List.append_eq_nil_iff.1 h.symm
    exact ⟨rfl, rfl⟩
  | cons m past ih =>
    cases newer with
    | nil =>
      rw [List.nil_append] at h
      subst h
      rw [era_append_dawn]
      exact ⟨rfl, rfl⟩
    | cons n newer =>
      cases hb : m.begins c id l past with
      | true =>
        rw [(era_of_begins hb).1] at h
        cases h
      | false =>
        rw [(era_of_not_begins hb).1, List.cons_append, List.cons.injEq] at h
        rw [(era_of_not_begins hb).2]
        exact ih h.2

/-- An era begins with a mark that begins one, unless it began with the record. -/
theorem dawn_begins (h : dawn c id l trace = m :: past) : m.begins c id l past = true := by
  induction trace with
  | nil => cases h
  | cons n rest ih =>
    cases hb : n.begins c id l rest with
    | true =>
      rw [(era_of_begins hb).2] at h
      cases h
      exact hb
    | false => exact ih ((era_of_not_begins hb).2.symm.trans h)

theorem not_opened_of_mem_era {s start : Nat} : .opened id s start ∉ era c id l trace := by
  induction trace with
  | nil => simp [era]
  | cons m past ih =>
    cases hb : m.begins c id l past with
    | true => simp [(era_of_begins hb).1]
    | false =>
      rw [(era_of_not_begins hb).1, List.mem_cons]
      rintro (rfl | h)
      · simp [Mark.begins] at hb
      · exact ih h

/-- A listener that is registered was so already, unless it has just joined. -/
theorem registered_of_cons (h : m.begins c id l past = false)
    (hl : l ∈ registered c (m :: past)) : l ∈ registered c past := by
  cases m with
  | «attached» c' l' joined =>
    simp only [registered] at hl
    split at hl
    · next hc =>
      rcases List.mem_append.1 hl with hl | hl
      · exact hl
      · have hl : l = l' := by simpa using hl
        simpa [Mark.begins, hc, hl] using h
    · exact hl
  | detached c' l' =>
    simp only [registered] at hl
    split at hl
    · exact List.mem_of_mem_erase hl
    · exact hl
  | _ => exact hl

/-- So a registered listener was registered during the whole era. -/
theorem registered_of_era (h : era c id l trace = newer ++ older) (hl : l ∈ registered c trace) :
    l ∈ registered c (older ++ dawn c id l trace) := by
  induction trace generalizing newer with
  | nil => exact absurd hl (by simp [registered])
  | cons m past ih =>
    cases newer with
    | nil =>
      rw [List.nil_append] at h
      rwa [← h, era_append_dawn]
    | cons n newer =>
      cases hb : m.begins c id l past with
      | true =>
        rw [(era_of_begins hb).1] at h
        cases h
      | false =>
        rw [(era_of_not_begins hb).1, List.cons_append, List.cons.injEq] at h
        rw [(era_of_not_begins hb).2]
        exact ih h.2 (registered_of_cons hb hl)

end

/-! ## How an attempt grows -/

/-- What one more mark makes of an attempt that is not over. -/
inductive Grows (setup : Setup) (c : String) (id : Nat) (past : List Mark) :
    Mark → Attempt → Attempt → Prop where
  | other {m : Mark} {a : Attempt} (h : m.owner? ≠ some id) : Grows setup c id past m a a
  | opened {s start : Nat} {a : Attempt} (hcalls : a.calls = []) :
      Grows setup c id past (.opened id s start) a
        { a with phase := .between, start, first := visitsTo (registered c past) .sync
                 agenda := visitsTo (registered c past) .sync }
  | took {a : Attempt} (hp : a.phase = .between) (hcalls : a.calls = a.agenda) :
      Grows setup c id past (.took id c (queued c past)) a
        { a with agenda := a.agenda ++ visitsTo (queued c past) .sync }
  | called {l : Listener} {h : Hook} {a : Attempt} (hp : a.phase = .between)
      (hnext : a.calls ++ [(l, h)] <+: a.agenda) :
      Grows setup c id past (.called id l h) a
        { a with phase := .within (l, h), calls := a.calls ++ [(l, h)] }
  | returned {l : Listener} {h : Hook} {fault : Option Fault} {a : Attempt}
      (hp : a.phase = .within (l, h)) (hb : h.isBroken fault = false) :
      Grows setup c id past (.returned id l h fault) a { a with phase := .between }
  | read {p : String} {a : Attempt} (hp : a.phase = .between) :
      Grows setup c id past (.read id (.message p)) a
        { a with payloads := a.payloads ++ [p], phase := .between }
  | dispatched {m : String} {a : Attempt} {queue : List Listener} {p : String}
      {before : List Mark} (hpast : past = .took id c queue :: .read id (.message p) :: before)
      (hp : a.phase ≠ .over) :
      Grows setup c id past (.dispatched id m (registered c past)) a
        { a with messages := a.messages ++ [m]
                 agenda := a.agenda ++ visitsTo (registered c past) (.event m) }
  | wrote {m : Mark} {a : Attempt} {active : Bool}
      (hm : m = .ended id ∨ ∃ s, m = .published id s) (hp : a.phase ≠ .over) :
      Grows setup c id past m a { a with active }

section
variable {setup : Setup} {c : String} {id : Nat} {l : Listener} {m : Mark}
  {past trace newer older : List Mark}

theorem Laws.grows (h : Laws setup c id (m :: past))
    (hp : (attempt setup c id (m :: past)).phase ≠ .over) :
    Grows setup c id past m (attempt setup c id past) (attempt setup c id (m :: past)) := by
  by_cases howner : m.owner? = some id
  · obtain ⟨hlaw, -⟩ := h
    cases m with
    | opened i s start =>
      cases howner
      obtain ⟨queue, before, rfl⟩ := hlaw rfl
      simp only [attempt, Attempt.after, if_true]
      exact .opened rfl
    | took i c' queue =>
      cases howner
      obtain ⟨rfl, rfl, ⟨key, before, rfl⟩ | ⟨hphase, hcalls⟩⟩ := hlaw rfl
      · simp [attempt, Attempt.after] at hp
      · simp only [attempt, Attempt.after, if_true]
        exact .took hphase hcalls
    | called i l h =>
      cases howner
      obtain ⟨hphase, hnext⟩ := hlaw rfl
      simp only [attempt, Attempt.after, if_true]
      exact .called hphase hnext
    | returned i l h fault =>
      cases howner
      simp only [attempt, Attempt.after, if_true] at hp ⊢
      cases hb : h.isBroken fault with
      | true => simp [hb] at hp
      | false => exact .returned (hlaw rfl) hb
    | read i reading =>
      cases howner
      obtain ⟨hphase, -⟩ := hlaw rfl
      cases reading with
      | message p =>
        simp only [attempt, Attempt.after, if_true] at hp ⊢
        cases hm : (setup.message? p).isSome with
        | false => simp [hm] at hp
        | true => exact .read hphase
      | _ => simp [attempt, Attempt.after] at hp
    | dispatched i m audience =>
      cases howner
      obtain ⟨rfl, queue, p, before, hpast, -⟩ := hlaw rfl
      simp only [attempt, Attempt.after, if_true] at hp ⊢
      exact .dispatched hpast hp
    | published i s =>
      cases howner
      cases s with
      | active =>
        simp only [attempt, Attempt.after, if_true] at hp ⊢
        exact .wrote (.inr ⟨_, rfl⟩) hp
      | _ => exact .wrote (.inr ⟨_, rfl⟩) hp
    | ended i =>
      cases howner
      exact .wrote (.inl rfl) hp
    | stored who call fault =>
      unfold Mark.owner? at howner
      split at howner <;> simp_all [attempt, Attempt.after]
    | _ => cases howner
  · rw [attempt_cons howner]
    exact .other howner

/-- A mark of an attempt was made by the task, or the attempt was on before it. -/
theorem Grows.phase {a a' : Attempt} (h : Grows setup c id past m a a') (hp : a'.phase ≠ .over) :
    a.phase ≠ .over ∨ ∃ s start, m = .opened id s start := by
  cases h with
  | other => exact .inl hp
  | opened => exact .inr ⟨_, _, rfl⟩
  | took hp' | called hp' | returned hp' | read hp' => exact .inl (by simp [hp'])
  | dispatched _ hp' | wrote _ hp' => exact .inl hp'

/-- An attempt is on only after its stream was opened. -/
theorem Laws.opened (h : Laws setup c id trace) (hp : (attempt setup c id trace).phase ≠ .over) :
    ∃ s start, .opened id s start ∈ trace := by
  induction trace with
  | nil => exact absurd rfl hp
  | cons m past ih =>
    rcases (h.grows hp).phase hp with hp' | ⟨s, start, rfl⟩
    · obtain ⟨s, start, hmem⟩ := ih h.2 hp'
      exact ⟨s, start, List.mem_cons_of_mem _ hmem⟩
    · exact ⟨s, start, List.mem_cons_self⟩

/-! ## The order of the calls that are due -/

/-- The task opens a stream or passes a message on. -/
def Mark.turns (id : Nat) : Mark → Bool
  | .opened i _ _ | .dispatched i _ _ => i = id
  | _ => false

/-- The audience of the last message holds the listener. -/
def Awaits (id : Nat) (trace : List Mark) (l : Listener) : Prop :=
  ∃ newer m audience past, trace = newer ++ .dispatched id m audience :: past ∧ l ∈ audience ∧
    ∀ n ∈ newer, n.turns id = false

theorem Awaits.cons (h : Awaits id past l) (hm : m.turns id = false) : Awaits id (m :: past) l := by
  obtain ⟨newer, m', audience, before, rfl, hl, hn⟩ := h
  exact ⟨m :: newer, m', audience, before, rfl, hl, by simpa [hm] using hn⟩

/-- First the listeners are synchronised that still have to be, then those are called that await
the last message. -/
def Ordered (id : Nat) (trace : List Mark) (a : Attempt) : Prop :=
  ∃ ls m waiting, a.agenda = a.calls ++ (visitsTo ls .sync ++ visitsTo waiting (.event m)) ∧
    ∀ l ∈ waiting, Awaits id trace l

theorem ordered_of_sync {a : Attempt} {ls : List Listener}
    (h : a.agenda = a.calls ++ visitsTo ls .sync) : Ordered id trace a :=
  ⟨ls, "", [], by simpa [visitsTo] using h, by simp⟩

theorem Ordered.cons {a a' : Attempt} (h : Ordered id past a) (hm : m.turns id = false)
    (hagenda : a'.agenda = a.agenda) (hcalls : a'.calls = a.calls) : Ordered id (m :: past) a' := by
  obtain ⟨ls, m', waiting, ha, hw⟩ := h
  exact ⟨ls, m', waiting, by rw [hagenda, hcalls, ha], fun l hl => (hw l hl).cons hm⟩

theorem Mark.turns_of_owner {m : Mark} (h : m.owner? ≠ some id) : m.turns id = false := by
  unfold Mark.turns
  split <;> simp_all [Mark.owner?]

/-- The next call is the first of those that are due. -/
theorem Ordered.called {a : Attempt} {h : Hook} (ho : Ordered id past a)
    (hnext : a.calls ++ [(l, h)] <+: a.agenda) : Ordered id (.called id l h :: past)
      { a with phase := .within (l, h), calls := a.calls ++ [(l, h)] } := by
  obtain ⟨ls, m, waiting, ha, hw⟩ := ho
  rw [ha, List.prefix_append_right_inj] at hnext
  obtain ⟨rest, hr⟩ := hnext
  cases ls with
  | cons k ls =>
    have hk : (l, h) = (k, .sync) ∧ rest = visitsTo ls .sync ++ visitsTo waiting (.event m) := by
      simpa [visitsTo] using hr
    exact ⟨ls, m, waiting, by simp [ha, hk.1, visitsTo], fun l hl => (hw l hl).cons rfl⟩
  | nil =>
    cases waiting with
    | nil => simp [visitsTo] at hr
    | cons k waiting =>
      have hk : (l, h) = (k, .event m) ∧ rest = visitsTo waiting (.event m) := by
        simpa [visitsTo] using hr
      exact ⟨[], m, waiting, by simp [ha, hk.1, visitsTo],
        fun l hl => (hw l (List.mem_cons_of_mem _ hl)).cons rfl⟩

theorem Laws.ordered (h : Laws setup c id trace) (hp : (attempt setup c id trace).phase ≠ .over) :
    Ordered id trace (attempt setup c id trace) := by
  induction trace with
  | nil => exact absurd rfl hp
  | cons m past ih =>
    have hgrows := h.grows hp
    have hbefore := hgrows.phase hp
    generalize attempt setup c id (m :: past) = a' at hgrows hp
    cases hgrows with
    | other howner =>
      exact (ih h.2 hp).cons (Mark.turns_of_owner howner) rfl rfl
    | opened hcalls => exact @ordered_of_sync _ _ _ (registered c past) (by simp [hcalls])
    | took _ hcalls => exact @ordered_of_sync _ _ _ (queued c past) (by simp [hcalls])
    | called hphase hnext => exact (ih h.2 (by simp [hphase])).called hnext
    | returned hphase => exact (ih h.2 (by simp [hphase])).cons rfl rfl rfl
    | read hphase => exact (ih h.2 (by simp [hphase])).cons rfl rfl rfl
    | @dispatched m' _ queue p before hpast hphase =>
      subst hpast
      obtain ⟨hq, hcalls⟩ : queue = queued c (.read id (.message p) :: before) ∧
          (attempt setup c id (.read id (.message p) :: before)).calls =
            (attempt setup c id (.read id (.message p) :: before)).agenda := by
        obtain ⟨-, hq, ⟨key, rest, hstored⟩ | ⟨-, hcalls⟩⟩ := h.2.1 rfl
        · cases hstored
        · exact ⟨hq, hcalls⟩
      refine ⟨queue, m', registered c (.took id c queue :: .read id (.message p) :: before), ?_,
        fun l hl => ⟨[], m', _, _, rfl, hl, by simp⟩⟩
      have htook : ∀ rest, attempt setup c id (.took id c queue :: rest) =
          { attempt setup c id rest with
            agenda := (attempt setup c id rest).agenda ++ visitsTo (queued c rest) .sync } :=
        fun rest => by simp [attempt, Attempt.after]
      simp only [htook, hcalls, ← hq, List.append_assoc]
    | wrote hm hphase =>
      refine (ih h.2 hphase).cons ?_ rfl rfl
      rcases hm with rfl | ⟨s, rfl⟩ <;> rfl

/-! ## The calls of an era -/

/-- How many calls the attempt had made when the era began. -/
def spent (setup : Setup) (c : String) (id : Nat) (l : Listener) (trace : List Mark) : Nat :=
  (attempt setup c id (dawn c id l trace)).calls.length

/-- The marks of an era tell which calls to synchronise the listener were due and were made. -/
structure Tally (setup : Setup) (c : String) (id : Nat) (l : Listener) (trace : List Mark)
    (a : Attempt) : Prop where
  spent : spent setup c id l trace ≤ a.calls.length
  agenda : a.calls.length ≤ a.agenda.length
  due : (l, .sync) ∈ a.agenda.drop (Muster.spent setup c id l trace) ↔
    (l, .sync) ∈ (attempt setup c id (dawn c id l trace)).owing ∨
      ∃ queue, .took id c queue ∈ era c id l trace ∧ l ∈ queue
  made : (l, .sync) ∈ a.calls.drop (Muster.spent setup c id l trace) ↔
    .called id l .sync ∈ era c id l trace
  done : (l, .sync) ∈ a.calls.drop (Muster.spent setup c id l trace) →
    Synced c id l trace ∨ a.phase = .within (l, .sync)

namespace Tally

/-- At the beginning of an era nothing has happened in it. -/
theorem start (h : m.begins c id l past = true) (hl : Laws setup c id (m :: past)) :
    Tally setup c id l (m :: past) (attempt setup c id (m :: past)) := by
  obtain ⟨he, hd⟩ := era_of_begins h
  refine ⟨?_, (calls_due hl).length_le, ?_, ?_, ?_⟩
  · exact Nat.le_of_eq (by rw [Muster.spent, hd])
  · simp [Muster.spent, hd, he, Attempt.owing]
  · simp [Muster.spent, hd, he]
  · simp [Muster.spent, hd]

/-- A mark that brings no call and no queue. -/
theorem quiet {a a' : Attempt} (h : Tally setup c id l past a)
    (hb : m.begins c id l past = false) (hcalls : a'.calls = a.calls)
    (hagenda : ∃ more, a'.agenda = a.agenda ++ more ∧ (l, .sync) ∉ more)
    (htook : ∀ queue, m ≠ .took id c queue) (hcalled : m ≠ .called id l .sync)
    (hphase : .called id l .sync ∈ era c id l past → a.phase = .within (l, .sync) →
      a'.phase = .within (l, .sync) ∨ Synced c id l (m :: past)) :
    Tally setup c id l (m :: past) a' := by
  obtain ⟨he, hd⟩ := era_of_not_begins hb
  obtain ⟨more, hagenda, hmore⟩ := hagenda
  have hspent : Muster.spent setup c id l (m :: past) = Muster.spent setup c id l past := by
    rw [Muster.spent, hd, Muster.spent]
  refine ⟨?_, ?_, ?_, ?_, fun hmem => ?_⟩
  · rw [hspent, hcalls]
    exact h.spent
  · rw [hcalls, hagenda, List.length_append]
    exact Nat.le_trans h.agenda (Nat.le_add_right _ _)
  · rw [hspent, hagenda, List.drop_append_of_le_length (Nat.le_trans h.spent h.agenda), hd, he]
    simp only [List.mem_append, hmore, or_false, h.due, List.mem_cons]
    refine or_congr_right ⟨?_, ?_⟩
    · rintro ⟨queue, hq, hl⟩
      exact ⟨queue, .inr hq, hl⟩
    · rintro ⟨queue, hq | hq, hl⟩
      · exact absurd hq.symm (htook queue)
      · exact ⟨queue, hq, hl⟩
  · rw [hspent, hcalls, h.made, he, List.mem_cons]
    exact ⟨.inr, fun h => h.resolve_left fun h => hcalled h.symm⟩
  · rw [hspent, hcalls] at hmem
    rcases h.done hmem with hs | hp
    · exact .inl (by rw [Synced, he]; exact hs.cons _)
    · exact (hphase (h.made.1 hmem) hp).symm

/-- The task takes a queue. -/
theorem took {a : Attempt} {queue : List Listener} (h : Tally setup c id l past a)
    (hphase : a.phase = .between) : Tally setup c id l (.took id c queue :: past)
      { a with agenda := a.agenda ++ visitsTo queue .sync } := by
  obtain ⟨he, hd⟩ := @era_of_not_begins c id l (.took id c queue) past rfl
  have hspent : Muster.spent setup c id l (.took id c queue :: past) =
      Muster.spent setup c id l past := by
    rw [Muster.spent, hd, Muster.spent]
  refine ⟨?_, ?_, ?_, ?_, fun hmem => ?_⟩
  · rw [hspent]
    exact h.spent
  · rw [List.length_append]
    exact Nat.le_trans h.agenda (Nat.le_add_right _ _)
  · have hqueue : ((l, .sync) : Visit) ∈ visitsTo queue .sync ↔ l ∈ queue := by simp [visitsTo]
    rw [hspent, List.drop_append_of_le_length (Nat.le_trans h.spent h.agenda), hd, he]
    simp only [List.mem_append, hqueue, h.due, List.mem_cons, or_assoc]
    refine or_congr_right ⟨?_, ?_⟩
    · rintro (⟨q, hq, hl⟩ | hl)
      · exact ⟨q, .inr hq, hl⟩
      · exact ⟨queue, .inl rfl, hl⟩
    · rintro ⟨q, hq | hq, hl⟩
      · cases hq
        exact .inr hl
      · exact .inl ⟨q, hq, hl⟩
  · rw [hspent, h.made, he]
    simp
  · rw [hspent] at hmem
    rcases h.done hmem with hs | hp
    · exact .inl (by rw [Synced, he]; exact hs.cons _)
    · simp [hphase] at hp

/-- The task calls a listener. -/
theorem called {a : Attempt} {k : Listener} {hook : Hook} (h : Tally setup c id l past a)
    (hphase : a.phase = .between) (hnext : a.calls ++ [(k, hook)] <+: a.agenda) :
    Tally setup c id l (.called id k hook :: past)
      { a with phase := .within (k, hook), calls := a.calls ++ [(k, hook)] } := by
  obtain ⟨he, hd⟩ := @era_of_not_begins c id l (.called id k hook) past rfl
  have hspent : Muster.spent setup c id l (.called id k hook :: past) =
      Muster.spent setup c id l past := by
    rw [Muster.spent, hd, Muster.spent]
  have hvisit : ((l, .sync) : Visit) ∈ [(k, hook)] ↔ Mark.called id l .sync = .called id k hook := by
    simp
  refine ⟨?_, hnext.length_le, ?_, ?_, fun hmem => ?_⟩
  · rw [hspent, List.length_append]
    exact Nat.le_trans h.spent (Nat.le_add_right _ _)
  · rw [hspent, hd, he, h.due]
    simp
  · rw [hspent, List.drop_append_of_le_length h.spent, List.mem_append, hvisit, h.made, he,
      List.mem_cons, or_comm]
  · rw [hspent, List.drop_append_of_le_length h.spent, List.mem_append] at hmem
    rcases hmem with hmem | hmem
    · rcases h.done hmem with hs | hp
      · exact .inl (by rw [Synced, he]; exact hs.cons _)
      · simp [hphase] at hp
    · have hk : (l, Hook.sync) = (k, hook) := by simpa using hmem
      exact .inr (by rw [hk])

end Tally

theorem Laws.tally (h : Laws setup c id trace) (hp : (attempt setup c id trace).phase ≠ .over) :
    Tally setup c id l trace (attempt setup c id trace) := by
  induction trace with
  | nil => exact absurd rfl hp
  | cons m past ih =>
    cases hb : m.begins c id l past with
    | true => exact .start hb h
    | false =>
      have hgrows := h.grows hp
      generalize attempt setup c id (m :: past) = a' at hgrows hp
      cases hgrows with
      | other howner =>
        refine (ih h.2 hp).quiet hb rfl ⟨[], by simp⟩ ?_ ?_ fun _ hp => .inl hp
        · rintro queue rfl
          exact howner rfl
        · rintro rfl
          exact howner rfl
      | opened => simp [Mark.begins] at hb
      | took hphase => exact (ih h.2 (by simp [hphase])).took hphase
      | called hphase hnext => exact (ih h.2 (by simp [hphase])).called hphase hnext
      | @returned k hook fault _ hphase hbroken =>
        refine (ih h.2 (by simp [hphase])).quiet hb rfl ⟨[], by simp⟩ (by simp) (by simp) ?_
        intro hcalled hwithin
        rw [hphase] at hwithin
        cases hwithin
        cases fault with
        | some f => simp [Hook.isBroken] at hbroken
        | none =>
          refine .inr ?_
          rw [Synced, (era_of_not_begins hb).1]
          exact (List.singleton_sublist.2 hcalled).cons_cons _
      | read hphase =>
        exact (ih h.2 (by simp [hphase])).quiet hb rfl ⟨[], by simp⟩ (by simp) (by simp)
          fun _ hp => by simp [hphase] at hp
      | dispatched hpast hphase =>
        exact (ih h.2 hphase).quiet hb rfl ⟨_, rfl, by simp [visitsTo]⟩ (by simp) (by simp)
          fun _ hp => .inl hp
      | wrote hm hphase =>
        refine (ih h.2 hphase).quiet hb rfl ⟨[], by simp⟩ ?_ ?_ fun _ hp => .inl hp
        · rcases hm with rfl | ⟨s, rfl⟩ <;> simp
        · rcases hm with rfl | ⟨s, rfl⟩ <;> simp

/-! ## Calls with a message -/

/-- When a listener is called with a message, no call to synchronise one is due any more, and the
listener was in the audience of the message. -/
theorem event_due {msg : String} (h : Laws setup c id past)
    (hcall : Lawful setup c id past (.called id l (.event msg))) :
    (∀ k, (k, .sync) ∉ (attempt setup c id past).owing) ∧ Awaits id past l := by
  obtain ⟨hphase, hnext⟩ := hcall rfl
  obtain ⟨ls, m, waiting, ha, hw⟩ := h.ordered (by simp [hphase])
  rw [Attempt.owing]
  rw [ha, List.prefix_append_right_inj] at hnext
  rw [ha, List.drop_left]
  obtain ⟨rest, hr⟩ := hnext
  cases ls with
  | cons k ls => simp [visitsTo] at hr
  | nil =>
    cases waiting with
    | nil => simp [visitsTo] at hr
    | cons k waiting =>
      have hk : l = k := by
        simp only [visitsTo, List.map_nil, List.nil_append, List.map_cons, List.cons_append,
          List.cons.injEq, Prod.mk.injEq] at hr
        exact hr.1.1
      exact ⟨fun k => by simp [visitsTo], hw l (by simp [hk])⟩

/-- The message was taken in the present era, or before the listener joined. -/
theorem Awaits.located (h : Awaits id trace l) (hd : dawn c id l trace = m :: past) :
    (∃ newer msg audience older, era c id l trace = newer ++ .dispatched id msg audience :: older ∧
      l ∈ audience) ∨
    (Late c id l trace ∧ ∀ s start, m ≠ .opened id s start) := by
  obtain ⟨newer, msg, audience, before, htrace, hl, hn⟩ := h
  have hsplit : era c id l trace ++ m :: past = newer ++ .dispatched id msg audience :: before := by
    rw [← hd, era_append_dawn, htrace]
  rcases List.append_eq_append_iff.1 hsplit with ⟨more, hnewer, hrest⟩ | ⟨more, hera, hrest⟩
  · refine .inr ⟨fun msg' audience' hmem => ?_, ?_⟩
    · have hquiet := hn _ (hnewer ▸ List.mem_append_left _ hmem)
      simp [Mark.turns] at hquiet
    · rintro s start rfl
      cases more with
      | nil =>
        rw [List.nil_append, List.cons.injEq] at hrest
        cases hrest.1
      | cons n more =>
        rw [List.cons_append, List.cons.injEq] at hrest
        have hquiet := hn n (by simp [hnewer])
        rw [← hrest.1] at hquiet
        simp [Mark.turns] at hquiet
  · cases more with
    | nil =>
      rw [List.nil_append, List.cons.injEq] at hrest
      have hbegins := dawn_begins hd
      rw [← hrest.1] at hbegins
      cases hbegins
    | cons n more =>
      rw [List.cons_append, List.cons.injEq] at hrest
      exact .inl ⟨newer, msg, audience, more, by rw [hera, hrest.1], hl⟩

/-- A message that was taken in the present era found the listener registered. -/
theorem registered_of_dispatched (h : Laws setup c id trace) {msg : String}
    {audience : List Listener}
    (he : era c id l trace = newer ++ .dispatched id msg audience :: older) (hl : l ∈ audience) :
    l ∈ registered c (older ++ dawn c id l trace) ∧ ∃ queue p before,
      older ++ dawn c id l trace = .took id c queue :: .read id (.message p) :: before := by
  have hs : .dispatched id msg audience :: (older ++ dawn c id l trace) <:+ trace :=
    ⟨newer, by rw [← List.cons_append, ← List.append_assoc, ← he, era_append_dawn]⟩
  obtain ⟨rfl, queue, p, before, hpast, -⟩ := h.of_suffix hs rfl
  exact ⟨hl, queue, p, before, hpast⟩

theorem dawn_of_opened {s start : Nat} (h : .opened id s start ∈ trace) :
    ∃ m past, dawn c id l trace = m :: past ∧ .opened id s start ∈ m :: past := by
  rw [← @era_append_dawn c id l trace] at h
  have hmem := (List.mem_append.1 h).resolve_left not_opened_of_mem_era
  cases hd : dawn c id l trace with
  | nil => simp [hd] at hmem
  | cons m past => exact ⟨m, past, rfl, hd ▸ hmem⟩

/-- A listener that is called with a message is synchronised, unless it was missed. -/
theorem synced_iff {msg : String} (h : Laws setup c id past)
    (hcall : Lawful setup c id past (.called id l (.event msg))) :
    Synced c id l past ↔ ¬ Missed c id l setup past := by
  obtain ⟨hphase, -⟩ := hcall rfl
  obtain ⟨howing, hawaits⟩ := event_due h hcall
  have hon : (attempt setup c id past).phase ≠ .over := by simp [hphase]
  have tally := @Laws.tally setup c id l past h hon
  -- All calls to synchronise that were due have been made.
  have hmade : (l, .sync) ∈ (attempt setup c id past).agenda.drop (spent setup c id l past) ↔
      (l, .sync) ∈ (attempt setup c id past).calls.drop (spent setup c id l past) := by
    obtain ⟨rest, hr⟩ := calls_due h
    have hrest : ((l, .sync) : Visit) ∉ rest := by
      have hl := howing l
      rwa [Attempt.owing, ← hr, List.drop_left] at hl
    rw [← hr, List.drop_append_of_le_length tally.spent, List.mem_append, or_iff_left hrest]
  constructor
  · rintro hs ⟨joined, before, hd, hnone, hqueues⟩
    have hcalled := tally.made.2 (hs.subset (by simp))
    rcases tally.due.1 (hmade.2 hcalled) with hdue | ⟨queue, hq, hl⟩
    · rw [hd, attempt_cons (by simp [Mark.owner?])] at hdue
      exact hnone hdue
    · exact hqueues queue hq hl
  · intro hmissed
    obtain ⟨s, start, hopened⟩ := h.opened hon
    obtain ⟨m, before, hd, -⟩ := @dawn_of_opened c id l _ _ _ hopened
    refine (tally.done (hmade.1 (tally.due.2 ?_))).resolve_right (by simp [hphase])
    have hbegins := dawn_begins hd
    cases m with
    | opened i s start =>
      have hi : i = id := by simpa [Mark.begins] using hbegins
      subst hi
      rcases hawaits.located hd with ⟨newer, msg, audience, older, he, hl⟩ | ⟨-, hne⟩
      · -- The listener is registered since the stream was opened.
        have hreg := (registered_of_dispatched h he hl).1
        have hbefore : l ∈ registered c before := by
          have hopen := (era_split (he.trans (List.append_cons _ _ _))).1
          have hreg := registered_of_era (hopen.trans (List.append_nil _).symm) hreg
          rwa [(era_split (he.trans (List.append_cons _ _ _))).2, hd] at hreg
        have hs : .opened i s start :: before <:+ past := ⟨_, by rw [← hd]; exact era_append_dawn⟩
        obtain ⟨queue, rest, rfl⟩ := h.of_suffix hs rfl
        refine .inl ?_
        rw [hd]
        simpa [attempt, Attempt.after, Attempt.owing, visitsTo] using hbefore
      · exact absurd rfl (hne s start)
    | «attached» c' l' joined =>
      by_cases hqueue : ∃ queue, .took id c queue ∈ era c id l past ∧ l ∈ queue
      · exact .inr hqueue
      · refine .inl (Decidable.byContradiction fun hnone => hmissed ⟨joined, before, ?_, ?_, ?_⟩)
        · simp [Mark.begins] at hbegins
          rw [hd, hbegins.1, hbegins.2.1]
        · rwa [hd, attempt_cons (by simp [Mark.owner?])] at hnone
        · exact fun queue hq hl => hqueue ⟨queue, hq, hl⟩
    | _ => cases hbegins

/-- A listener that joined a task stays queued until its queue is taken, or it is dropped. -/
theorem queued_or_dropped {joined : Bool} (h : Laws setup c id trace) (ht : Tended c id trace)
    (hd : dawn c id l trace = .attached c l joined :: past)
    (howner : ∃ n ∈ past, n.owner? = some id) (hl : l ∈ registered c trace)
    (hqueues : ∀ queue, .took id c queue ∈ era c id l trace → l ∉ queue) :
    l ∈ queued c trace ∨ Dropped c id l trace := by
  induction trace with
  | nil => cases hd
  | cons m rest ih =>
    cases hb : m.begins c id l rest with
    | true =>
      rw [(era_of_begins hb).2] at hd
      cases hd
      obtain rfl := (ht.1 howner).1 l joined rfl
      exact .inl (by simp [queued])
    | false =>
      have hdawn := (era_of_not_begins hb).2
      have hrest : dawn c id l rest <:+ rest := ⟨_, era_append_dawn⟩
      have hmine : ∃ n ∈ rest, n.owner? = some id := by
        obtain ⟨n, hn, hid⟩ := howner
        exact ⟨n, hrest.subset ((hdawn.symm.trans hd) ▸ List.mem_cons_of_mem _ hn), hid⟩
      have hera : ∀ n, n ∈ era c id l rest → n ∈ era c id l (m :: rest) := fun n hn => by
        rw [(era_of_not_begins hb).1]
        exact List.mem_cons_of_mem _ hn
      rcases ih h.2 ht.2 (hdawn.symm.trans hd) (registered_of_cons hb hl)
        (fun queue hq => hqueues queue (hera _ hq)) with hq | ⟨before, hs, hbefore, hin, hstay⟩
      · cases m with
        | «attached» c' k now =>
          left
          cases now with
          | false => exact hq
          | true =>
            simp only [queued]
            split
            · exact List.mem_append_left _ hq
            · exact hq
        | detached c' k =>
          by_cases hc : c' = c
          · subst hc
            by_cases hk : l = k
            · subst hk
              exact .inr ⟨rest, List.suffix_rfl, hdawn ▸ hrest, hq, hl⟩
            · left
              have hsome : (registered c' rest).erase k ≠ [] := by
                simp only [registered, if_true] at hl
                exact List.ne_nil_of_mem hl
              simp [queued, hsome, hq, hk]
          · exact .inl (by simpa [queued, hc] using hq)
        | took i c' queue =>
          by_cases hc : c' = c
          · subst hc
            obtain rfl := (ht.1 hmine).2 i queue rfl
            obtain ⟨-, rfl, -⟩ := h.1 rfl
            refine absurd hq (hqueues _ ?_)
            rw [(era_of_not_begins hb).1]
            exact List.mem_cons_self
          · exact .inl (by simpa [queued, hc] using hq)
        | _ => exact .inl hq
      · exact .inr ⟨before, hs.trans (List.suffix_cons _ _), hdawn ▸ hbefore, hin, hstay⟩

theorem Tended.suffix (h : Tended c id trace) (hs : past <:+ trace) : Tended c id past := by
  induction trace with
  | nil => exact (List.suffix_nil.1 hs) ▸ h
  | cons m rest ih =>
    rcases List.suffix_cons_iff.1 hs with rfl | hs
    · exact h
    · exact ih h.2 hs

/-- Why a listener is called with a message that it should not have yet. -/
theorem late_or_dropped {msg : String} (h : Laws setup c id past) (ht : Tended c id past)
    (hcall : Lawful setup c id past (.called id l (.event msg)))
    (hmissed : Missed c id l setup past) : Late c id l past ∨ Dropped c id l past := by
  obtain ⟨hphase, -⟩ := hcall rfl
  obtain ⟨joined, before, hd, -, hqueues⟩ := hmissed
  obtain ⟨s, start, hopened⟩ := h.opened (by simp [hphase])
  obtain ⟨m, before', hd', hmem⟩ := @dawn_of_opened c id l _ _ _ hopened
  cases hd.symm.trans hd'
  have howner : ∃ n ∈ before, n.owner? = some id :=
    ⟨_, (List.mem_cons.1 hmem).resolve_left (by simp), rfl⟩
  rcases (event_due h hcall).2.located hd with ⟨newer, msg', audience, older, he, hl⟩ | ⟨hlate, -⟩
  · right
    obtain ⟨hreg, queue, p, rest, hpast⟩ := registered_of_dispatched h he hl
    cases older with
    | nil =>
      rw [List.nil_append, hd] at hpast
      cases hpast
    | cons n older =>
      -- The queue was taken right before; the listener was not in it.
      rw [List.cons_append, List.cons.injEq] at hpast
      obtain ⟨rfl, hpast⟩ := hpast
      have hsplit := era_split (he.trans (by simp :
        _ = (newer ++ [.dispatched id msg' audience, .took id c queue]) ++ older))
      have hs : .took id c queue :: (older ++ dawn c id l past) <:+ past :=
        ⟨newer ++ [.dispatched id msg' audience], by
          conv => rhs; rw [← @era_append_dawn c id l past, he]
          simp⟩
      obtain ⟨-, hqueue, -⟩ := h.of_suffix hs rfl
      have hnot : l ∉ queue := hqueues queue (by simp [he])
      have hs := (List.suffix_cons _ _).trans hs
      rcases queued_or_dropped (h.suffix hs) (ht.suffix hs) (hsplit.2.trans hd) howner hreg
        (fun q hq => hqueues q (by rw [hsplit.1] at hq; simp [he, hq])) with hin | ⟨b, hb, hdb, hrest⟩
      · exact absurd (hqueue ▸ hin) hnot
      · exact ⟨b, hb.trans hs, hsplit.2 ▸ hdb, hrest⟩
  · exact .inl hlate

end

end Muster
