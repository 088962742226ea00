import Muster.Proofs.Handover

/-!
# Messages that follow a synchronisation

Once a task has called a listener to synchronise, the listener should get every message whose
audience is copied later in the attempt. The queue shows a joiner to the task before the list does,
so it may be synchronised while it is in neither copy yet: a message whose audience is copied in the
middle of the join is lost to it (`Overtaken`). Nobody else misses a message.
-/
namespace Muster

namespace Handover

variable {α : Type} {c : String} {s s' : Handover α} {past : List (Access α)} {l : α}

/-! ## Overtaken joins -/

/-- The list was last copied for a message in the middle of the listener's join. -/
def Overtaken (l : α) (past : List (Access α)) : Prop :=
  ∃ newer older, past = newer ++ .copyAudience :: older ∧ .copyAudience ∉ newer ∧ Underway l older

theorem overtaken_cons {a : Access α} :
    Overtaken l (a :: past) ↔
      a = .copyAudience ∧ Underway l past ∨ a ≠ .copyAudience ∧ Overtaken l past := by
  constructor
  · rintro ⟨newer, older, hpast, hcopy, hl⟩
    cases newer with
    | nil =>
      cases hpast
      exact .inl ⟨rfl, hl⟩
    | cons b newer =>
      obtain ⟨rfl, rfl⟩ := List.cons.inj hpast
      obtain ⟨hb, hcopy⟩ := not_or.1 (mt List.mem_cons.2 hcopy)
      exact .inr ⟨Ne.symm hb, newer, older, rfl, hcopy, hl⟩
  · rintro (⟨rfl, hl⟩ | ⟨ha, newer, older, rfl, hcopy, hl⟩)
    · exact ⟨[], past, rfl, by simp, hl⟩
    · exact ⟨a :: newer, older, rfl, by simp [ha.symm, hcopy], hl⟩

theorem Overtaken.cons {a : Access α} (h : Overtaken l past) (ha : a ≠ .copyAudience) :
    Overtaken l (a :: past) :=
  overtaken_cons.2 (.inr ⟨ha, h⟩)

/-- Callers exclude each other, so a message overtakes one join at most. -/
theorem overtaken_unique {s₀ : Handover α} (h : after c s₀ past = some s) {l' : α}
    (hl : Overtaken l past) (hl' : Overtaken l' past) : l = l' := by
  induction past generalizing s with
  | nil =>
    obtain ⟨newer, older, hnil, -⟩ := hl
    simp at hnil
  | cons a past ih =>
    obtain ⟨v, hv, -⟩ := Option.bind_eq_some_iff.1 h
    rcases overtaken_cons.1 hl with ⟨ha, hu⟩ | ⟨ha, ho⟩ <;>
      rcases overtaken_cons.1 hl' with ⟨ha', hu'⟩ | ⟨ha', ho'⟩
    · exact Option.some.inj
        ((joining_of_underway hv hu).symm.trans (joining_of_underway hv hu'))
    · exact absurd ha ha'
    · exact absurd ha' ha
    · exact ih hv ho ho'

/-! ## Who was synchronised is expected -/

/-- The listener is on the list of the cluster, or about to come onto it. -/
def Expected (c : String) (s : Handover α) (l : α) : Prop :=
  l ∈ s.listeners.of c ∨ s.joining = some l

/-- No call takes anybody off the list. -/
theorem Expected.step {a : Access α} (h : Expected c s l) (hs : s.step c a = some s') :
    Expected c s' l := by
  cases a with
  | enqueue k =>
    simp only [Handover.step] at hs
    split at hs
    · next hfree =>
      cases hs
      exact .inl (h.resolve_right (by simp [hfree]))
    · cases hs
  | register =>
    obtain ⟨k, hk, rfl⟩ := Option.map_eq_some_iff.1 hs
    refine .inl ?_
    rcases h with hl | hl
    · simp [hl]
    · obtain rfl : k = l := Option.some.inj (hk.symm.trans hl)
      simp
  | giveUp =>
    cases hs
    exact h
  | _ =>
    simp only [Handover.step] at hs
    split at hs <;> cases hs
    exact h

/-- What is known of those a task has called to synchronise, where it stands. -/
def Attended (c : String) (s : Handover α) (past : List (Access α)) : Place α → Prop
  | .resting => True
  | .emptied => True
  | .listening r => ∀ l, r.Covers l → Expected c s l
  | .copied r audience =>
    ∀ l, r.Covers l → Expected c s l ∧ (l ∈ audience ∨ Overtaken l past)
  | .delivering r audience =>
    (∀ l, r.Covers l → Expected c s l) ∧ ∃ late earlier, r = Round.take earlier late ∧
      ∀ l, earlier.Covers l → l ∈ audience ∨ Overtaken l past

/-- What holds after every call: whoever is queued is expected too. -/
structure Heard (c : String) (s : Handover α) (past : List (Access α)) : Prop where
  queued : ∀ l ∈ s.listeners.pending c, Expected c s l
  attended : Attended c s past s.place

/-- A call that copies nothing for a message and that does not move the task. -/
theorem Attended.called {a : Access α} {p : Place α} (h : Attended c s past p)
    (ha : a ≠ .copyAudience) (hkept : ∀ l, Expected c s l → Expected c s' l) :
    Attended c s' (a :: past) p := by
  cases p with
  | resting => trivial
  | emptied => trivial
  | listening r => exact fun l hl => hkept l (h l hl)
  | copied r audience =>
    exact fun l hl => ⟨hkept l (h l hl).1, (h l hl).2.imp_right fun ho => ho.cons ha⟩
  | delivering r audience =>
    obtain ⟨hall, late, earlier, hr, hheard⟩ := h
    exact ⟨fun l hl => hkept l (hall l hl), late, earlier, hr,
      fun l hl => (hheard l hl).imp_right fun ho => ho.cons ha⟩

theorem Heard.step {a : Access α} (h : Heard c s past) (hk : Known c s past)
    (hs : s.step c a = some s') : Heard c s' (a :: past) := by
  have hkept : ∀ l, Expected c s l → Expected c s' l := fun _ hl => hl.step hs
  have hattended := h.attended
  cases a with
  | enqueue k =>
    simp only [Handover.step] at hs
    split at hs
    · cases hs
      refine ⟨fun l hl => ?_, hattended.called (by simp) hkept⟩
      simp only [Listeners.pending_enqueue, if_true, List.mem_append, List.mem_singleton] at hl
      rcases hl with hl | rfl
      · exact hkept l (h.queued l hl)
      · exact .inr rfl
    · cases hs
  | register =>
    obtain ⟨k, -, rfl⟩ := Option.map_eq_some_iff.1 hs
    exact ⟨fun l hl => hkept l (h.queued l hl), hattended.called (by simp) hkept⟩
  | takeQueue =>
    simp only [Handover.step] at hs
    split at hs <;> cases hs
    exact ⟨by simp, trivial⟩
  | copyAll =>
    simp only [Handover.step] at hs
    split at hs <;> cases hs
    refine ⟨h.queued, fun l hl => ?_⟩
    obtain hl | ⟨batch, hbatch, -⟩ := hl
    · exact .inl hl
    · simp at hbatch
  | takeJoined =>
    simp only [Handover.step] at hs
    split at hs
    · next r hp =>
      cases hs
      rw [hp] at hattended
      exact ⟨by simp,
        fun l hl => hkept l ((Round.covers_take.1 hl).elim (h.queued l) (hattended l))⟩
    · cases hs
  | copyAudience =>
    simp only [Handover.step] at hs
    split at hs
    · next r hp =>
      cases hs
      rw [hp] at hattended
      -- Whoever is expected and not on the list is the one whose join is underway.
      exact ⟨h.queued, fun l hl => ⟨hattended l hl, (hattended l hl).imp_right fun hj =>
        overtaken_cons.2 (.inl ⟨rfl, hk.joining l hj⟩)⟩⟩
    · cases hs
  | takeLate =>
    simp only [Handover.step] at hs
    split at hs
    · next r audience hp =>
      cases hs
      rw [hp] at hattended
      exact ⟨by simp,
        fun l hl =>
          hkept l ((Round.covers_take.1 hl).elim (h.queued l) fun hr => (hattended l hr).1),
        _, r, rfl, fun l hl => (hattended l hl).2.imp_right fun ho => ho.cons (by simp)⟩
    · cases hs
  | delivered =>
    simp only [Handover.step] at hs
    split at hs
    · next r audience hp =>
      cases hs
      rw [hp] at hattended
      exact ⟨h.queued, hattended.1⟩
    · cases hs
  | giveUp =>
    cases hs
    exact ⟨h.queued, trivial⟩

theorem Heard.after {ls : Listeners α} (hq : ∀ l ∈ ls.pending c, l ∈ ls.of c)
    (h : after c { listeners := ls } past = some s) : Heard c s past := by
  induction past generalizing s with
  | nil =>
    cases h
    exact ⟨fun l hl => .inl (hq l hl), trivial⟩
  | cons a past ih =>
    obtain ⟨v, hv, hs⟩ := Option.bind_eq_some_iff.1 h
    exact (ih hv).step (.after hv) hs

/-! ## Main results -/

/-- Callers subscribe and a task makes its calls, in any order; at first whoever is queued is
registered. Whenever the task delivers a message, it has taken the queue once since it copied the
list for it, and everybody called to synchronise before, in the full pass or in an earlier batch,
is in the copy; unless the list was copied in the middle of the listener's join, as it is for one
listener at most. -/
theorem synchronised_in_audience {ls : Listeners α} {r : Round α} {audience : List α}
    (hq : ∀ l ∈ ls.pending c, l ∈ ls.of c)
    (h : after c { listeners := ls } past = some s) (hp : s.place = .delivering r audience) :
    (∃ late earlier, r.batches = late :: earlier ∧
      ∀ l, l ∈ r.full ∨ (∃ batch ∈ earlier, l ∈ batch) → l ∈ audience ∨ Overtaken l past) ∧
    ∀ l l', Overtaken l past → Overtaken l' past → l = l' := by
  have hattended := (Heard.after hq h).attended
  rw [hp] at hattended
  obtain ⟨-, late, earlier, rfl, hheard⟩ := hattended
  exact ⟨⟨late, earlier.batches, rfl, hheard⟩, fun l l' => overtaken_unique h⟩

/-- A joiner is noticed and synchronised, and the message that comes then is delivered to it. -/
theorem synchronised_in_audience_joiner : ∃ past s r audience late earlier,
    after "c" { listeners := ({} : Listeners Listener).add "c" (.user "a") } past = some s ∧
    s.place = .delivering r audience ∧ r.batches = late :: earlier ∧ [.user "b"] ∈ earlier ∧
    .user "b" ∉ r.full ∧ (.user "b" ∈ audience ∨ Overtaken (.user "b") past) := by
  let ls := ({} : Listeners Listener).add "c" (.user "a")
  let past : List (Access Listener) :=
    [.takeLate, .copyAudience, .takeJoined, .register, .enqueue (.user "b"), .copyAll, .takeQueue]
  refine ⟨past, _, _, _, _, _, rfl, rfl, rfl, by decide, by decide, ?_⟩
  have hq : ∀ l ∈ ls.pending "c", l ∈ ls.of "c" := by decide
  have hafter : after "c" { listeners := ls } past = some _ := rfl
  obtain ⟨⟨late, earlier, hbatches, hheard⟩, -⟩ := synchronised_in_audience hq hafter rfl
  obtain ⟨-, rfl⟩ := List.cons.inj hbatches
  exact hheard _ (by decide)

/-- The task notices a joiner between the two calls of its join, and synchronises it. The message
that comes then is not delivered to it. -/
theorem synchronised_not_in_audience : ∃ past s r audience late earlier,
    after "c" { listeners := ({} : Listeners Listener).add "c" (.user "a") } past = some s ∧
    s.place = .delivering r audience ∧ r.batches = late :: earlier ∧ [.user "b"] ∈ earlier ∧
    .user "b" ∉ audience :=
  ⟨[.takeLate, .copyAudience, .takeJoined, .enqueue (.user "b"), .copyAll, .takeQueue], _, _, _, _,
    _, rfl, rfl, rfl, by decide, by decide⟩

end Handover

end Muster
