import Muster.Proofs.Restarts

/-!
# The restart budget

The accounts of the tasks of a client (`Ledger`): how many drops in a row each has had, that every
end of an attempt was heeded, and that attempts, restarts and failures add up. Every move keeps
them, so a task attempts again after each end but a protocol fault and the last drop that its policy
allows.
-/
namespace Muster

/-- A client with the usual settings but so many attempts before its tasks give up. -/
def Setup.limited (identity : String) (maxAttempts : Nat) : Setup :=
  { config := { identity, restart := { maxAttempts } }, source := fun _ => none }

/-- A task by its record. -/
structure Account (setup : Setup) (id : Nat) (t : Task) (trace : List Mark) : Prop where
  running : t.position ≠ .ended → t.failures = setup.drops id trace ∧
    t.backoff = setup.backoff (setup.drops id trace) ∧
    (0 < setup.config.restart.maxAttempts →
      setup.drops id trace < setup.config.restart.maxAttempts)
  tries : t.cancelled = false →
    attempts id trace + t.isOpening.toNat + t.isWaiting.toNat = retreats id trace + 1
  gone : .ended id ∈ trace → t.position = .ended
  failed : t.position = .ended → t.cancelled = false → .published id .failed ∈ trace

namespace Account

variable {setup : Setup} {id : Nat} {t t' : Task} {past ms : List Mark}

/-- Others go on. -/
theorem persists (h : Account setup id t past) (hp : t.Persists t')
    (hms : ∀ m ∈ ms, setup.Spares id m) : Account setup id t' (ms ++ past) := by
  obtain ⟨hd, ha, hr, he⟩ := tallied_append hms past
  obtain ⟨ho, hw⟩ := hp.counts
  constructor
  · rw [hp.position, hp.failures, hp.backoff, hd]
    exact h.running
  · rw [ha, hr, ho, hw]
    exact fun hc => h.tries (hp.cancelled hc)
  · rw [he, hp.position]
    exact h.gone
  · rw [hp.position]
    exact fun hend hc => List.mem_append_right _ (h.failed hend (hp.cancelled hc))

/-- A task that made no mark yet. -/
theorem fresh (hms : ∀ m ∈ ms, m.owner? ≠ some id) (hf : t.failures = 0)
    (hb : t.backoff = .ofPolicy setup.config.restart) (hp : t.position = .opening .arriving) :
    Account setup id t ms := by
  have hspares : ∀ m ∈ ms, setup.Spares id m := fun m hm => .inl (hms m hm)
  obtain ⟨hd, ha, hr, he⟩ := tallied_append hspares []
  rw [List.append_nil] at hd ha hr he
  refine ⟨fun _ => ?_, fun _ => ?_, fun hend => ?_, fun hend => ?_⟩
  · rw [hd]
    exact ⟨hf, hb, fun h => h⟩
  · rw [ha, hr]
    simp [Task.isOpening, Task.isWaiting, hp, attempts, retreats]
  · simp at he
    exact absurd hend he
  · rw [hp] at hend
    cases hend

end Account

namespace World

variable {setup : Setup} {w v w' : World} {id : Nat} {t : Task} {ms : List Mark}

/-- The accounts of all tasks. -/
structure Ledger (setup : Setup) (w : World) : Prop where
  heeded : setup.Heeded w.trace
  settled : setup.due? w.trace = none
  accounts : ∀ {id : Nat} {t : Task}, w.tasks[id]? = some t → Account setup id t w.trace
  failures : w.counters.subscriptionFailures = w.trace.countP Mark.isFailure
  tries : (∀ t ∈ w.tasks, t.cancelled = false) →
    w.trace.countP Mark.isAttempt + w.tasks.countP Task.isOpening =
      w.tasks.length + w.counters.subscriptionRestarts
  waits : (∀ t ∈ w.tasks, t.cancelled = false) →
    w.counters.subscriptionRestarts + w.tasks.countP Task.isWaiting =
      w.trace.countP Mark.isRetreat

namespace Ledger

theorem start (store : Memory) : Ledger setup { store } := by
  refine ⟨trivial, rfl, fun ht => ?_, rfl, fun _ => rfl, fun _ => rfl⟩
  simp at ht

theorem store (h : Ledger setup w) (store : Memory) : Ledger setup { w with store } :=
  ⟨h.heeded, h.settled, h.accounts, h.failures, h.tries, h.waits⟩

/-- No task moves. -/
theorem level (h : Ledger setup w) (hl : Level setup id w v)
    (hturns : v.counters.events.2 = w.counters.events.2) (hend : .ended id ∉ w.trace)
    (hnone : ∀ j, w.tasks[j]? = none → ∀ m ∈ w.trace, m.owner? ≠ some j)
    (hown : ∀ j, v.tasks[j]?.isSome = true → w.tasks[j]? = none → id ≠ j) : Ledger setup v := by
  obtain ⟨ms, hm, hms⟩ := hl.trace
  obtain ⟨hattempts, hfailures, hretreats⟩ := hms.counts
  simp only [Counters.events, Prod.mk.injEq] at hturns
  have free : (∀ t ∈ v.tasks, t.cancelled = false) → ∀ t ∈ w.tasks, t.cancelled = false := by
    intro hv t ht
    obtain ⟨j, hj⟩ := List.mem_iff_getElem?.1 ht
    obtain ⟨t', ht', hp⟩ := hl.old j t hj
    exact hp.cancelled (hv t' (List.mem_of_getElem? ht'))
  obtain ⟨hheeded, hsettled⟩ := h.heeded.weightless h.settled hms hend
  rw [← hm] at hheeded hsettled
  refine ⟨hheeded, hsettled, fun {j t'} ht' => ?_, ?_, fun hv => ?_, fun hv => ?_⟩
  · cases hj : w.tasks[j]? with
    | some t =>
      obtain ⟨u, hu, hp⟩ := hl.old j t hj
      cases hu.symm.trans ht'
      rw [hm]
      exact (h.accounts hj).persists hp hms.spares
    | none =>
      obtain ⟨hf, hb, hp⟩ := hl.fresh j t' hj ht'
      refine .fresh (fun m hmem => ?_) hf hb hp
      rw [hm] at hmem
      rcases List.mem_append.1 hmem with hmem | hmem
      · rcases (hms m hmem).2 with ho | ho <;> rw [ho]
        · simp
        · simpa using hown j (by simp [ht']) hj
      · exact hnone j hj m hmem
  · rw [hturns.2, hm, List.countP_append, hfailures, h.failures, Nat.zero_add]
  · have htries := h.tries (free hv)
    have hopening := hl.opening
    rw [hturns.1, hm, List.countP_append, hattempts]
    omega
  · have hwaits := h.waits (free hv)
    rw [hturns.1, hm, List.countP_append, hretreats, hl.waiting]
    omega

/-- One task turns to something else. -/
theorem turn (h : Ledger setup w) (ht : w.tasks[id]? = some t) {f : Task → Task}
    (hturn : Alters id w v ms f) (hcan : (f t).cancelled = t.cancelled)
    (hspare : ∀ m ∈ ms, m.owner? = some id ∨ setup.weighs m = false)
    (hheeded : setup.Heeded v.trace) (hsettled : setup.due? v.trace = none)
    (hacc : Account setup id (f t) v.trace)
    (hfailures : v.counters.subscriptionFailures =
      w.counters.subscriptionFailures + ms.countP Mark.isFailure)
    (htries : t.cancelled = false → ms.countP Mark.isAttempt + (f t).isOpening.toNat +
      w.counters.subscriptionRestarts = t.isOpening.toNat + v.counters.subscriptionRestarts)
    (hwaits : t.cancelled = false → v.counters.subscriptionRestarts + (f t).isWaiting.toNat =
      w.counters.subscriptionRestarts + t.isWaiting.toNat + ms.countP Mark.isRetreat) :
    Ledger setup v := by
  have hmine : v.tasks[id]? = some (f t) := by simp [hturn.tasks, ht]
  have hothers : ∀ j, id ≠ j → v.tasks[j]? = w.tasks[j]? := fun j hj => by simp [hturn.tasks, hj]
  have free : (∀ u ∈ v.tasks, u.cancelled = false) →
      (∀ u ∈ w.tasks, u.cancelled = false) ∧ t.cancelled = false := by
    intro hv
    have hc : t.cancelled = false := hcan ▸ hv _ (List.mem_of_getElem? hmine)
    refine ⟨fun u hu => ?_, hc⟩
    obtain ⟨j, hj⟩ := List.mem_iff_getElem?.1 hu
    by_cases hij : id = j
    · subst hij
      cases ht.symm.trans hj
      exact hc
    · exact hv u (List.mem_of_getElem? ((hothers j hij).trans hj))
  refine ⟨hheeded, hsettled, fun {j u} hu => ?_, ?_, fun hv => ?_, fun hv => ?_⟩
  · by_cases hij : id = j
    · subst hij
      cases hmine.symm.trans hu
      exact hacc
    · rw [hothers j hij] at hu
      rw [hturn.trace]
      refine (h.accounts hu).persists (.refl u) fun m hm => (hspare m hm).imp_left fun ho => ?_
      simpa [ho] using hij
  · rw [hfailures, hturn.trace, List.countP_append, h.failures, Nat.add_comm]
  · obtain ⟨hw, hc⟩ := free hv
    have hold := h.tries hw
    have hnew := htries hc
    have hcount := countP_modify Task.isOpening f ht
    rw [hturn.trace, List.countP_append, hturn.tasks, List.length_modify]
    omega
  · obtain ⟨hw, hc⟩ := free hv
    have hold := h.waits hw
    have hnew := hwaits hc
    have hcount := countP_modify Task.isWaiting f ht
    rw [hturn.trace, List.countP_append, hturn.tasks]
    omega

/-- A position changes to one of the same kind. -/
theorem moveTask (h : Ledger setup w) (ht : w.tasks[id]? = some t) {p : Position}
    (hp : p.Resembles t.position) : Ledger setup (w.moveTask id p) := by
  have hacc := h.accounts ht
  have hopening : ({ t with position := p } : Task).isOpening = t.isOpening := hp.opening
  have hwaiting : ({ t with position := p } : Task).isWaiting = t.isWaiting := hp.waiting
  have hturn : Alters id w (w.moveTask id p) [] fun u => { u with position := p } := ⟨rfl, rfl⟩
  refine h.turn ht hturn rfl (by simp) h.heeded h.settled
    ⟨fun hne => hacc.running (mt hp.ended.2 hne), fun hc => ?_,
      fun hend => hp.ended.2 (hacc.gone hend), fun hend => hacc.failed (hp.ended.1 hend)⟩ rfl
    (fun _ => ?_) fun _ => ?_
  · rw [hopening, hwaiting]
    exact hacc.tries hc
  · rw [hopening, List.countP_nil, Nat.zero_add]
    rfl
  · rw [hwaiting]
    rfl

/-- A stream was opened. -/
theorem opened (h : Ledger setup w) (ht : w.tasks[id]? = some t) (hend : .ended id ∉ w.trace)
    {key : String} {p : Position}
    (hturn : Alters id w v (ms ++ [.stored (.task id) (.subscribe key) none])
      fun u => { u with position := p })
    (hms : setup.Weightless id ms) (ho : t.position.isOpening = true)
    (hp : p.stream?.isSome = true) (hturns : v.counters.events.2 = w.counters.events.2) :
    Ledger setup v := by
  obtain ⟨hopening, hwaiting, hended⟩ := Position.of_stream? hp
  obtain ⟨hne, hwas⟩ : t.position ≠ .ended ∧ t.position.isWaiting = false := by
    cases hpos : t.position <;> simp_all [Position.isOpening, Position.isWaiting]
  simp only [Counters.events, Prod.mk.injEq] at hturns
  have hacc := h.accounts ht
  have hsub : setup.Heeded (.stored (.task id) (.subscribe key) none :: w.trace) :=
    ⟨Setup.heeds_of_settled h.settled rfl hend ⟨rfl, rfl⟩, h.heeded⟩
  have hacc' : Account setup id { t with position := p }
      (.stored (.task id) (.subscribe key) none :: w.trace) := by
    refine ⟨fun _ => hacc.running hne, fun hc => ?_, fun hmem => ?_, fun hpe => absurd hpe hended⟩
    · have htries := hacc.tries hc
      rw [attempts_cons rfl]
      simp [Task.isOpening, Task.isWaiting, ho, hwas, hopening, hwaiting, Mark.isAttempt,
        retreats] at htries ⊢
      exact htries
    · simp [hend] at hmem
  obtain ⟨hheeded, hsettled⟩ := hsub.weightless rfl hms (by simpa using hend)
  obtain ⟨hattempts, hfailures, hretreats⟩ := hms.counts
  have htrace := hturn.trace
  rw [List.append_assoc, List.singleton_append] at htrace
  rw [← htrace] at hheeded hsettled
  refine h.turn ht hturn rfl (fun m hm => ?_) hheeded hsettled
    (htrace ▸ hacc'.persists (.refl _) hms.spares) ?_ (fun _ => ?_) fun _ => ?_
  · rcases List.mem_append.1 hm with hm | hm
    · exact .inr (hms m hm).1
    · rw [List.mem_singleton.1 hm]
      exact .inl rfl
  · rw [hturns.2, List.countP_append, hfailures]
    rfl
  · rw [hturns.1, List.countP_append, hattempts]
    simp [Task.isOpening, ho, hopening, Mark.isAttempt]
  · rw [hturns.1, List.countP_append, hretreats]
    simp [Task.isWaiting, hwas, hwaiting, Mark.isRetreat]

/-- A task became active. -/
theorem activated (h : Ledger setup w) (ht : w.tasks[id]? = some t) (hend : .ended id ∉ w.trace)
    {s : Nat} (hturn : Alters id w v [.published id .active] fun u => { u with
      failures := 0, backoff := u.backoff.reset, position := .listening s })
    (hp : t.position.stream?.isSome = true)
    (hturns : v.counters.events.2 = w.counters.events.2) : Ledger setup v := by
  obtain ⟨hopening, hwaiting, hended⟩ := Position.of_stream? hp
  obtain ⟨hopening', hwaiting', -⟩ := Position.of_stream? (p := .listening s) rfl
  simp only [Counters.events, Prod.mk.injEq] at hturns
  have hacc := h.accounts ht
  have hreset : t.backoff.reset = setup.backoff 0 := by
    rw [(hacc.running hended).2.1, Setup.reset_backoff]
  have hdrops : setup.drops id (.published id .active :: w.trace) = 0 := if_pos rfl
  refine h.turn ht hturn rfl (fun m hm => ?_) ?_ ?_ ?_ ?_ (fun _ => ?_) fun _ => ?_
  · rw [List.mem_singleton.1 hm]
    exact .inl rfl
  · rw [hturn.trace]
    exact ⟨Setup.heeds_of_settled h.settled rfl hend ⟨rfl, rfl⟩, h.heeded⟩
  · rw [hturn.trace]
    rfl
  · rw [hturn.trace]
    refine ⟨fun _ => ?_, fun hc => ?_, fun hmem => ?_, fun hpe => by simp at hpe⟩
    · rw [List.singleton_append, hdrops]
      exact ⟨rfl, hreset, fun hpos => hpos⟩
    · have htries := hacc.tries hc
      rw [List.singleton_append, attempts_cons rfl]
      simp [Task.isOpening, Task.isWaiting, hopening, hwaiting, hopening', hwaiting',
        Mark.isAttempt, retreats] at htries ⊢
      exact htries
    · simp [hend] at hmem
  · rw [hturns.2]
    rfl
  · rw [hturns.1]
    simp [Task.isOpening, hopening, hopening', Mark.isAttempt]
  · rw [hturns.1]
    simp [Task.isWaiting, hwaiting, hwaiting', Mark.isRetreat]

/-- A task attempts again. -/
theorem retried (h : Ledger setup w) (ht : w.tasks[id]? = some t) (hend : .ended id ∉ w.trace)
    {due : Nat} (hp : t.position = .waiting due)
    (hturn : Alters id w v [] fun u => { u with position := .opening .arriving })
    (hturns : v.counters.events.2 =
      (w.counters.subscriptionRestarts + 1, w.counters.subscriptionFailures)) :
    Ledger setup v := by
  simp only [Counters.events, Prod.mk.injEq] at hturns
  have hacc := h.accounts ht
  have htrace : v.trace = w.trace := hturn.trace
  refine h.turn ht hturn rfl (by simp) (htrace ▸ h.heeded) (htrace ▸ h.settled) ?_ hturns.2
    (fun _ => ?_) fun _ => ?_
  · rw [htrace]
    refine ⟨fun _ => hacc.running (by simp [hp]), fun hc => ?_, fun hmem => absurd hmem hend,
      fun hpe => by simp at hpe⟩
    have htries := hacc.tries hc
    simp [Task.isOpening, Task.isWaiting, hp] at htries ⊢
    exact htries
  · simp [hturns.1, Task.isOpening, hp]
    omega
  · simp [hturns.1, Task.isWaiting, hp]

/-- An attempt has ended, and the verdict is due. -/
structure Judged (setup : Setup) (id : Nat) (t : Task) (e : Ending) (past : List Mark) : Prop where
  heeded : setup.Heeded past
  running : .ended id ∉ past
  due : setup.due? past = some (.published id (setup.verdict e (setup.drops id past)))
  drops : setup.drops id past = t.failures + if e = .dropped then 1 else 0
  tries : attempts id past = retreats id past + 1

theorem judged (h : Ledger setup w) (ht : w.tasks[id]? = some t) (hc : t.cancelled = false)
    (hne : t.position ≠ .ended) {e : Ending} {m : Mark} (hends : Ends setup id t e m ms) :
    Judged setup id t e (m :: (ms ++ w.trace)) := by
  have hacc := h.accounts ht
  have hend : .ended id ∉ w.trace := fun hmem => hne (hacc.gone hmem)
  obtain ⟨hheeded, hsettled⟩ := h.heeded.weightless h.settled hends.before hend
  have hspares : ∀ n ∈ ms, setup.Spares id n := hends.before.spares
  obtain ⟨hd, ha, hr, hover⟩ := tallied_append hspares w.trace
  obtain ⟨hfail, hretreat, hpub⟩ := Setup.plain_of_ending? hends.ending
  have howner := Setup.owner?_of_ending? hends.ending
  have hend' : .ended id ∉ ms ++ w.trace := fun hmem => hend (hover.1 hmem)
  have hmark : Mark.ended id ≠ m := by
    rintro rfl
    cases hends.ending
  refine ⟨⟨Setup.heeds_of_settled hsettled howner hend' ⟨hfail, hretreat⟩, hheeded⟩, ?_,
    Setup.due?_of_ending? hends.ending _, ?_, ?_⟩
  · exact fun hmem => (List.mem_cons.1 hmem).elim hmark hend'
  · rw [Setup.drops_of_ending? hends.ending, hd, (hacc.running hne).1]
  · have htries := hacc.tries hc
    have hretreats : retreats id (m :: (ms ++ w.trace)) = retreats id (ms ++ w.trace) :=
      List.count_cons_of_ne (hpub _ _)
    rw [hretreats, attempts_cons howner, ha, hr, hends.attempt]
    simpa [Task.isOpening, Task.isWaiting, hends.waiting] using htries

/-- A task failed. -/
theorem failed (h : Ledger setup w) (ht : w.tasks[id]? = some t) (hc : t.cancelled = false)
    (hne : t.position ≠ .ended) {e : Ending} {m : Mark} {f : Task → Task}
    (hturn : Alters id w v (.ended id :: .published id .failed :: m :: ms) f)
    (hends : Ends setup id t e m ms)
    (hlast : e = .fatal ∨ 0 < setup.config.restart.maxAttempts ∧
      setup.config.restart.maxAttempts ≤ t.failures + 1 ∨ t.backoff.patience ≠ none)
    (hf : ∀ u, (f u).position = .ended ∧ (f u).cancelled = u.cancelled)
    (hturns : v.counters.events.2 =
      (w.counters.subscriptionRestarts, w.counters.subscriptionFailures + 1)) :
    Ledger setup v := by
  have hj := h.judged ht hc hne hends
  obtain ⟨hfails, hback, hbudget⟩ := (h.accounts ht).running hne
  obtain ⟨hattempts, hfailures, hretreats⟩ := hends.before.counts
  obtain ⟨hfail, hretreat, hpub⟩ := Setup.plain_of_ending? hends.ending
  obtain ⟨hpos, hcan⟩ := hf t
  simp only [Counters.events, Prod.mk.injEq] at hturns
  have hverdict : setup.verdict e (setup.drops id (m :: (ms ++ w.trace))) = .failed := by
    refine if_pos ?_
    cases e with
    | fatal => exact .inl rfl
    | dropped =>
      have hunlimited : t.backoff.patience = none := by rw [hback, Setup.patience_backoff]
      obtain ⟨hpos, hle⟩ := (hlast.resolve_left (by simp)).resolve_right (not_not_intro hunlimited)
      have hlt := hbudget hpos
      refine .inr ⟨hpos, ?_⟩
      rw [hj.drops, if_pos rfl]
      omega
  have hdue := hj.due
  rw [hverdict] at hdue
  have htrace : v.trace = .ended id :: .published id .failed :: m :: (ms ++ w.trace) := hturn.trace
  have hpublished : setup.Heeds (m :: (ms ++ w.trace)) (.published id .failed) :=
    ⟨fun x hx => Option.some.inj (hdue.symm.trans hx), fun _ => hdue,
      fun j hj' => by cases hj'; exact hj.running⟩
  have hended : setup.Heeds (.published id .failed :: m :: (ms ++ w.trace)) (.ended id) :=
    ⟨fun x hx => Option.some.inj hx, fun hv => by simp at hv,
      fun j hj' => by cases hj'; simpa using hj.running⟩
  refine h.turn ht hturn hcan (fun n hn => ?_) ?_ ?_ ?_ ?_ (fun _ => ?_) fun _ => ?_
  · simp only [List.mem_cons] at hn
    rcases hn with rfl | rfl | rfl | hn
    · exact .inl rfl
    · exact .inl rfl
    · exact .inl (Setup.owner?_of_ending? hends.ending)
    · exact .inr (hends.before n hn).1
  · rw [htrace]
    exact ⟨hended, hpublished, hj.heeded⟩
  · rw [htrace]
    rfl
  · rw [htrace]
    refine ⟨fun hne' => absurd hpos hne', fun _ => ?_, fun _ => hpos, fun _ _ => by simp⟩
    rw [attempts_cons rfl, attempts_cons rfl, hj.tries]
    simp [Task.isOpening, Task.isWaiting, hpos, retreats]
  · simp [hturns.2, List.countP_cons, hfail, hfailures]
  · simp [hturns.1, List.countP_cons, Task.isOpening, hpos, hends.attempt, hattempts]
    cases t.position.isOpening <;> rfl
  · simp [hturns.1, Task.isWaiting, hpos, hends.waiting, hretreat, hretreats]

/-- A task is going to wait. -/
theorem dropped (h : Ledger setup w) (ht : w.tasks[id]? = some t) (hc : t.cancelled = false)
    (hne : t.position ≠ .ended) {m : Mark} {due : Nat}
    (hturn : Alters id w v (.published id .reconnecting :: m :: ms) fun u => { u with
      failures := t.failures + 1, backoff := t.backoff.next.2, position := .waiting due })
    (hends : Ends setup id t .dropped m ms)
    (hleft : 0 < setup.config.restart.maxAttempts →
      t.failures + 1 < setup.config.restart.maxAttempts)
    (hturns : v.counters.events.2 = w.counters.events.2) : Ledger setup v := by
  have hj := h.judged ht hc hne hends
  obtain ⟨hfails, hback, -⟩ := (h.accounts ht).running hne
  obtain ⟨hattempts, hfailures, hretreats⟩ := hends.before.counts
  obtain ⟨hfail, hretreat, -⟩ := Setup.plain_of_ending? hends.ending
  simp only [Counters.events, Prod.mk.injEq] at hturns
  have hdrops : setup.drops id (m :: (ms ++ w.trace)) = t.failures + 1 := hj.drops
  have hverdict : setup.verdict .dropped (setup.drops id (m :: (ms ++ w.trace))) =
      .reconnecting := by
    refine if_neg ?_
    rintro (hfatal | ⟨hpos, heq⟩)
    · cases hfatal
    · have := hleft hpos
      omega
  have hdue := hj.due
  rw [hverdict] at hdue
  have htrace : v.trace = .published id .reconnecting :: m :: (ms ++ w.trace) := hturn.trace
  have hpublished : setup.Heeds (m :: (ms ++ w.trace)) (.published id .reconnecting) :=
    ⟨fun x hx => Option.some.inj (hdue.symm.trans hx), fun _ => hdue,
      fun j hj' => by cases hj'; exact hj.running⟩
  have hdrops' : setup.drops id (.published id .reconnecting :: m :: (ms ++ w.trace)) =
      t.failures + 1 := by
    rw [Setup.drops, if_neg (by simp), if_neg (by simp [Setup.ending?]), hdrops]
  refine h.turn ht hturn rfl (fun n hn => ?_) ?_ ?_ ?_ ?_ (fun _ => ?_) fun _ => ?_
  · simp only [List.mem_cons] at hn
    rcases hn with rfl | rfl | hn
    · exact .inl rfl
    · exact .inl (Setup.owner?_of_ending? hends.ending)
    · exact .inr (hends.before n hn).1
  · rw [htrace]
    exact ⟨hpublished, hj.heeded⟩
  · rw [htrace]
    rfl
  · rw [htrace]
    refine ⟨fun _ => ?_, fun _ => ?_, fun hmem => ?_, fun hpe => by simp at hpe⟩
    · rw [hdrops', hback, ← hfails]
      exact ⟨rfl, rfl, hleft⟩
    · rw [attempts_cons rfl, hj.tries]
      simp [Task.isOpening, Task.isWaiting, retreats]
    · exact absurd hmem (by simpa using hj.running)
  · simp [hturns.2, hfail, hfailures]
  · simp [hturns.1, List.countP_cons, Task.isOpening, hends.attempt, hattempts]
    cases t.position.isOpening <;> rfl
  · simp [hturns.1, List.countP_cons, Task.isWaiting, hends.waiting, hretreat, hretreats]

theorem fate (h : Ledger setup w) (ht : w.tasks[id]? = some t) (he : t.isEnded = false)
    (hc : t.cancelled = false)
    (hnone : ∀ j, w.tasks[j]? = none → ∀ m ∈ w.trace, m.owner? ≠ some j)
    (hf : Fate setup w id t w') : Ledger setup w' := by
  have hne : t.position ≠ .ended := fun hp => by simp [Task.isEnded, hp] at he
  have hend : .ended id ∉ w.trace := fun hmem => hne ((h.accounts ht).gone hmem)
  cases hf with
  | goes hl hp heq hturns =>
    subst heq
    obtain ⟨t', ht', hpersists⟩ := hl.old id t ht
    have hv := h.level hl hturns hend hnone fun j _ hj hij => by
      subst hij
      cases ht.symm.trans hj
    exact hv.moveTask ht' (hpersists.position ▸ hp)
  | opened hturn hms ho hp hturns => exact h.opened ht hend hturn hms ho hp hturns
  | activated hturn hp hturns => exact h.activated ht hend hturn hp hturns
  | failed hturn hends hlast hf hturns => exact h.failed ht hc hne hturn hends hlast hf hturns
  | dropped hturn hends hleft hturns => exact h.dropped ht hc hne hturn hends hleft hturns
  | retried hp hd hturn hturns => exact h.retried ht hend hp hturn hturns

/-- A cancelled task stops. -/
theorem stopped (h : Ledger setup w) (ht : w.tasks[id]? = some t) (he : t.isEnded = false)
    (hc : t.cancelled = true) : Ledger setup (w.stopTask id t) := by
  have hne : t.position ≠ .ended := fun hp => by simp [Task.isEnded, hp] at he
  have hend : .ended id ∉ w.trace := fun hmem => hne ((h.accounts ht).gone hmem)
  obtain ⟨ms, hms, hturn, hturns⟩ := stopTask_turns w id t
  simp only [Counters.events, Prod.mk.injEq] at hturns
  have hbefore : setup.Heeded (ms ++ w.trace) ∧ setup.due? (ms ++ w.trace) = none ∧
      .ended id ∉ ms ++ w.trace ∧ ms.countP Mark.isFailure = 0 := by
    rcases hms with rfl | rfl
    · exact ⟨h.heeded, h.settled, hend, rfl⟩
    · exact ⟨⟨Setup.heeds_of_settled h.settled rfl hend ⟨rfl, rfl⟩, h.heeded⟩, rfl,
        by simpa using hend, rfl⟩
  obtain ⟨hheeded, hsettled, hend', hfailures⟩ := hbefore
  have free : ∀ {p : Prop}, t.cancelled = false → p := fun hc' => by simp [hc] at hc'
  refine h.turn ht hturn rfl (fun m hm => ?_) ?_ ?_ ?_ ?_ free free
  · rcases List.mem_cons.1 hm with rfl | hm
    · exact .inl rfl
    · rcases hms with rfl | rfl
      · simp at hm
      · exact .inl (by simp_all [Mark.owner?])
  · rw [hturn.trace]
    exact ⟨Setup.heeds_of_settled hsettled rfl hend' ⟨rfl, rfl⟩, hheeded⟩
  · rw [hturn.trace]
    rfl
  · exact ⟨fun hne' => absurd rfl hne', fun hc' => free hc', fun _ => rfl, fun _ hc' => free hc'⟩
  · simp [hturns.2, hfailures]

end Ledger

/-- A task that was not cancelled may write the status. -/
theorem heard_of_task (hsup : Supervised w) (ht : w.tasks[id]? = some t) (he : t.isEnded = false)
    (hc : t.cancelled = false) : w.Heard t := by
  obtain ⟨ch, s, hch, -, -, hslot, hg, -⟩ := hsup.handle (hsup.held (charge?_of_task ht) he hc)
  cases (charge?_of_task ht).symm.trans hch
  exact ⟨s, hslot, hg⟩

/-- Whoever is no task moves no task. -/
theorem move_level {m : Move} (hsup : Supervised w) (hm : w.move setup m = some w')
    (hstep : ∀ id, m ≠ .step (.task id)) (hclear : ∀ id, m ≠ .clear (.task id)) :
    Level setup id w w' ∧ w'.counters.events = w.counters.events := by
  cases m with
  | step who =>
    cases who with
    | task id => exact absurd rfl (hstep id)
    | call id =>
      refine ⟨.edits (stepCall_edits hm), ?_⟩
      have hm : w.stepCall setup id = some w' := hm
      unfold stepCall at hm
      split at hm
      · cases hm
      · obtain ⟨⟨v, p⟩, hr, rfl⟩ := Option.map_eq_some_iff.1 hm
        have hdeed : Deed setup True (.call id) w _ _ _ := resume_deed hr
        cases p <;> exact hdeed.events hsup
  | ask id a =>
    simp only [move] at hm
    split at hm
    · cases hm
    · cases hm
      refine ⟨.edits (ask_edits w id a), ?_⟩
      have hdeed := @begin_deed setup (w.note (.asked id a)) (.call id) a
      have hevents := hdeed.events (hsup.rests (.note w _))
      unfold ask
      generalize (w.note (.asked id a)).begin setup (.call id) a = r at hevents
      obtain ⟨v, p⟩ := r
      cases p <;> exact hevents
  | drop id =>
    cases hm
    refine ⟨.edits (dropCall_edits w id), ?_⟩
    unfold dropCall
    split
    · rfl
    · next stage _ =>
      rcases abandon_cases w (.call id) stage with heq | ⟨c, heq⟩
      · rw [heq]
      · rw [heq]
        rfl
  | clear who =>
    cases who with
    | task id => exact absurd rfl (hclear id)
    | call id =>
      cases hm
      exact ⟨.quiet rfl rfl, rfl⟩
  | free _ | elapse _ =>
    cases hm
    exact ⟨.quiet rfl rfl, rfl⟩

theorem Ledger.move {m : Move} (h : Ledger setup w) (hsup : Supervised w)
    (hnone : ∀ j, w.tasks[j]? = none → ∀ m ∈ w.trace, m.owner? ≠ some j)
    (hm : w.move setup m = some w') : Ledger setup w' := by
  by_cases hstep : ∃ id, m = .step (.task id)
  · obtain ⟨id, rfl⟩ := hstep
    obtain ⟨t, ht, hm⟩ := Option.bind_eq_some_iff.1 hm
    unfold stepTask at hm
    split at hm
    · cases hm
    · next he =>
      have he : t.isEnded = false := by simpa using he
      split at hm
      · next hc =>
        cases hm
        exact h.stopped ht he hc
      · next hc =>
        have hc : t.cancelled = false := by simpa using hc
        have hfate := (advanceTask_cases hm).fate hsup (heard_of_task hsup ht he hc)
        exact h.fate ht he hc hnone hfate
  · by_cases hclear : ∃ id, m = .clear (.task id)
    · obtain ⟨id, rfl⟩ := hclear
      cases hm
      cases ht : w.tasks[id]? with
      | none =>
        have hself : w.clear (.task id) = w := by
          have hmod : w.tasks.modify id (fun t => { t with position := t.position.clear }) =
              w.tasks := List.modify_eq_self (by simpa using ht)
          exact congrArg (fun tasks => { w with tasks }) hmod
        rw [hself]
        exact h
      | some t =>
        have hmod : w.clear (.task id) = w.moveTask id t.position.clear := updateTask_congr ht rfl
        rw [hmod]
        exact h.moveTask ht (Position.resembles_clear _)
    -- The marks are nobody's, so take a number that no task has, or will have.
    · obtain ⟨hl, hevents⟩ : Level setup w'.tasks.length w w' ∧ _ :=
        move_level hsup hm (fun id hid => hstep ⟨id, hid⟩) fun id hid => hclear ⟨id, hid⟩
      have hlast : w.tasks[w'.tasks.length]? = none := by
        cases hj : w.tasks[w'.tasks.length]? with
        | none => rfl
        | some t =>
          obtain ⟨t', ht', -⟩ := hl.old _ t hj
          simp at ht'
      refine h.level hl (congrArg Prod.snd hevents)
        (fun hmem => hnone _ hlast _ hmem rfl) hnone fun j hj _ hij => ?_
      subst hij
      simp at hj

/-! ## What becomes of attempts -/

/-- What one step of a task that is not cancelled does about its attempts. -/
structure Advance (setup : Setup) (w : World) (id : Nat) (t : Task) (w' : World) (t' : Task) :
    Prop where
  /-- The end of a wait counts one restart, and an attempt begins. -/
  resumes : ∀ due, t.position = .waiting due →
    t' = { t with position := .opening .arriving } ∧ w'.trace = w.trace ∧
    w'.counters.subscriptionRestarts = w.counters.subscriptionRestarts + 1
  goes : t.isWaiting = false → w'.counters.subscriptionRestarts = w.counters.subscriptionRestarts
  /-- A task begins to wait when its attempt is dropped, and does so for one delay around the
  interval that its policy gives after so many drops in a row. -/
  waits : ∀ due, t.isWaiting = false → t'.position = .waiting due →
    due = w.clock + setup.delay w.draws (setup.backoff (setup.drops id w.trace)).current ∧
    ∃ m ms, w'.trace = .published id .reconnecting :: m :: (ms ++ w.trace) ∧
      setup.ending? m = some (id, .dropped)
  /-- A task ends when its attempt does, and that counts one failure. -/
  ends : t'.isEnded = true → (∃ e m ms, setup.ending? m = some (id, e) ∧
      w'.trace = .ended id :: .published id .failed :: m :: (ms ++ w.trace)) ∧
    w'.counters.subscriptionFailures = w.counters.subscriptionFailures + 1
  opens : t'.isOpening = true → t.isOpening = true ∨ t.isWaiting = true

theorem advance_waiting (ht : w.tasks[id]? = some t) {due : Nat} (hp : t.position = .waiting due)
    (hm : w.advanceTask setup id t = some w') :
    ∃ t', w'.tasks[id]? = some t' ∧ Advance setup w id t w' t' := by
  unfold advanceTask at hm
  simp only [hp] at hm
  split at hm
  · cases hm
    refine ⟨{ t with position := .opening .arriving }, ?_, fun due' hp' => ?_, fun hne => ?_,
      fun _ hne => ?_, fun hend => ?_, fun _ => .inr ?_⟩
    · simp [moveTask, World.updateTask, World.count, ht]
    · cases hp.symm.trans hp'
      exact ⟨rfl, rfl, rfl⟩
    · simp [Task.isWaiting, hp] at hne
    · simp [Task.isWaiting, hp] at hne
    · simp [Task.isEnded] at hend
    · simp [Task.isWaiting, hp]
  · cases hm

theorem Ledger.advance (h : Ledger setup w) (ht : w.tasks[id]? = some t)
    (hne : t.position ≠ .ended) (hw : t.isWaiting = false) (hf : Fate setup w id t w') :
    ∃ t', w'.tasks[id]? = some t' ∧ Advance setup w id t w' t' := by
  have turned : ∀ {ms : List Mark} {f : Task → Task}, Alters id w w' ms f →
      w'.tasks[id]? = some (f t) := fun hturn => by simp [hturn.tasks, ht]
  have hnot : ∀ due, t.position ≠ .waiting due := fun due hp => by
    simp [Task.isWaiting, hp] at hw
  have hawake : ∀ {q : Nat → Prop} (due : Nat), t.position = .waiting due → q due :=
    fun due hp => absurd hp (hnot due)
  have events : ∀ {r n : Nat}, w'.counters.events.2 = (r, n) →
      w'.counters.subscriptionRestarts = r ∧ w'.counters.subscriptionFailures = n :=
    fun h => ⟨congrArg Prod.fst h, congrArg Prod.snd h⟩
  obtain ⟨-, hback, -⟩ := (h.accounts ht).running hne
  cases hf with
  | @goes v p hl hp heq hturns =>
    obtain ⟨u, hu, hpersists⟩ := hl.old id t ht
    refine ⟨{ u with position := p }, ?_, hawake, fun _ => (events hturns).1, fun due _ hd => ?_,
      fun hend => ?_, fun ho => .inl ?_⟩
    · simp [heq, World.moveTask, World.updateTask, hu]
    · have hwaiting := hp.waiting
      simp only at hd
      rw [hd] at hwaiting
      exact absurd hw (by simp [Task.isWaiting, ← hwaiting])
    · exact absurd (hp.ended.1 (Task.isEnded_iff.1 hend)) hne
    · exact hp.opening.symm.trans ho
  | opened hturn hms ho hp hturns =>
    obtain ⟨hopening, hwaiting, hended⟩ := Position.of_stream? hp
    refine ⟨_, turned hturn, hawake, fun _ => (events hturns).1, fun due _ hd => ?_,
      fun hend => absurd (Task.isEnded_iff.1 hend) hended, fun _ => .inl ho⟩
    simp only at hd
    simp [hd] at hwaiting
  | activated hturn hp hturns =>
    refine ⟨_, turned hturn, hawake, fun _ => (events hturns).1, fun due _ hd => ?_,
      fun hend => ?_, fun ho => ?_⟩
    · cases hd
    · simp [Task.isEnded] at hend
    · simp [Task.isOpening, Position.isOpening] at ho
  | @failed e m ms f hturn hends hlast hf hturns =>
    obtain ⟨hpos, -⟩ := hf t
    refine ⟨_, turned hturn, hawake, fun _ => (events hturns).1, fun due _ hd => ?_,
      fun _ => ⟨⟨e, m, ms, hends.ending, hturn.trace⟩, (events hturns).2⟩, fun ho => ?_⟩
    · cases hpos.symm.trans hd
    · simp [Task.isOpening, hpos] at ho
  | @dropped m ms hturn hends hleft hturns =>
    refine ⟨_, turned hturn, hawake, fun _ => (events hturns).1, fun due _ hd => ?_,
      fun hend => ?_, fun ho => ?_⟩
    · cases hd
      exact ⟨by rw [hback]; rfl, m, ms, hturn.trace, hends.ending⟩
    · simp [Task.isEnded] at hend
    · simp [Task.isOpening] at ho
  | retried hp => exact absurd hp (hnot _)

/-- What became of the attempts of a task so far. -/
structure Budget (setup : Setup) (w : World) (id : Nat) (t : Task) : Prop where
  /-- On a protocol fault, and on the last drop in a row that it may have, the task fails and
  makes no further mark. -/
  fails : ∀ {m past e}, m :: past <:+ w.trace → setup.ending? m = some (id, e) →
    setup.verdict e (setup.drops id (m :: past)) = .failed → t.isEnded = true ∧
    ∃ later, w.trace = later ++ .ended id :: .published id .failed :: m :: past ∧
      ∀ x ∈ later, x.owner? ≠ some id
  /-- On any other end it reconnects. -/
  retries : ∀ {m past e}, m :: past <:+ w.trace → setup.ending? m = some (id, e) →
    setup.verdict e (setup.drops id (m :: past)) ≠ .failed →
    ∃ later, w.trace = later ++ .published id .reconnecting :: m :: past
  /-- Without an end it does neither. -/
  only : ∀ {s past}, .published id s :: past <:+ w.trace → s = .failed ∨ s = .reconnecting →
    ∃ m before e, past = m :: before ∧ setup.ending? m = some (id, e) ∧
      s = setup.verdict e (setup.drops id past)
  once : w.trace.count (.published id .failed) ≤ 1
  gone : t.isEnded = true → t.cancelled = false → .published id .failed ∈ w.trace
  counted : w.counters.subscriptionFailures = w.trace.countP Mark.isFailure
  /-- A task that waits goes on as soon as its time has come, and no sooner. -/
  patient : ∀ due, t.position = .waiting due → t.cancelled = false →
    ((w.move setup (.step (.task id))).isSome = true ↔ due ≤ w.clock)
  /-- Without a limit, only a protocol fault ends a task. -/
  unlimited : setup.config.restart.maxAttempts = 0 →
    (∀ m ∈ w.trace, setup.ending? m ≠ some (id, .fatal)) → .published id .failed ∉ w.trace
  /-- With a limit, a task that never became active and met no protocol fault makes so many
  attempts and then fails. -/
  limited : 0 < setup.config.restart.maxAttempts → t.cancelled = false →
    (∀ m ∈ w.trace, m ≠ .published id .active ∧ setup.ending? m ≠ some (id, .fatal)) →
    (t.isEnded = true ↔ setup.drops id w.trace = setup.config.restart.maxAttempts) ∧
    attempts id w.trace ≤ setup.config.restart.maxAttempts ∧
    (t.isEnded = true → attempts id w.trace = setup.config.restart.maxAttempts ∧
      retreats id w.trace = setup.config.restart.maxAttempts - 1 ∧
      (w.tasks = [t] → w.counters.subscriptionRestarts = setup.config.restart.maxAttempts - 1))
  /-- Every task opens its stream once, and once more after each restart. -/
  tries : (∀ u ∈ w.tasks, u.cancelled = false) →
    w.trace.countP Mark.isAttempt + w.tasks.countP Task.isOpening =
      w.tasks.length + w.counters.subscriptionRestarts
  waits : (∀ u ∈ w.tasks, u.cancelled = false) →
    w.counters.subscriptionRestarts + w.tasks.countP Task.isWaiting =
      w.trace.countP Mark.isRetreat

theorem Ledger.budget (h : Ledger setup w) (ht : w.tasks[id]? = some t)
    (hnone : ∀ j, w.tasks[j]? = none → ∀ m ∈ w.trace, m.owner? ≠ some j) :
    Budget setup w id t := by
  have hacc := h.accounts ht
  have heeded : ∀ {m past e}, m :: past <:+ w.trace → setup.ending? m = some (id, e) →
      ∃ later, w.trace =
        later ++ .published id (setup.verdict e (setup.drops id (m :: past))) :: m :: past :=
    fun hs hm => h.heeded.followed hs (Setup.due?_of_ending? hm _) h.settled
  constructor
  case fails =>
    intro m past e hs hm hv
    obtain ⟨before, hbefore⟩ := heeded hs hm
    rw [hv] at hbefore
    have hwrote : .published id .failed :: m :: past <:+ w.trace := ⟨before, hbefore.symm⟩
    obtain ⟨later, hlater⟩ := h.heeded.followed hwrote rfl h.settled
    exact ⟨Task.isEnded_iff.2 (hacc.gone (by simp [hlater])), later, hlater,
      (hlater ▸ h.heeded).silent⟩
  case retries =>
    intro m past e hs hm hv
    obtain ⟨later, hlater⟩ := heeded hs hm
    rw [(setup.verdict_cases _ _).resolve_left hv] at hlater
    exact ⟨later, hlater⟩
  case only =>
    intro s past hs hv
    refine Setup.due?_published ((h.heeded.suffix hs).1.2.1 ?_)
    rcases hv with rfl | rfl
    · exact .inl rfl
    · exact .inr rfl
  case once => exact h.heeded.failed_once
  case gone => exact fun hend hc => hacc.failed (Task.isEnded_iff.1 hend) hc
  case counted => exact h.failures
  case patient =>
    intro due hp hc
    have hstep : w.move setup (.step (.task id)) = w.advanceTask setup id t := by
      simp [World.move, step, ht, stepTask, Task.isEnded, hp, hc]
    rw [hstep, advanceTask, hp]
    simp only
    split <;> simp_all
  case unlimited =>
    intro hmax hmild hf
    obtain ⟨later, m, past, e, htrace, hm, hv, -⟩ := h.heeded.of_failed h.settled hf
    have hmild := hmild m (by simp [htrace])
    cases e with
    | fatal => exact hmild hm
    | dropped => simp [Setup.verdict, hmax] at hv
  case limited =>
    intro hmax hc hlow
    have hdrops := h.heeded.drops_eq hlow
    rw [countP_isVerdict, Setup.owes_of_not_due fun s hs => by cases h.settled.symm.trans hs]
      at hdrops
    have htries := hacc.tries hc
    have honce : w.trace.count (.published id .failed) ≤ 1 := h.heeded.failed_once
    -- The last drop is the one that ended the task.
    have hlast : t.isEnded = true → setup.drops id w.trace = setup.config.restart.maxAttempts ∧
        w.trace.count (.published id .failed) = 1 := by
      intro hend
      have hf := hacc.failed (Task.isEnded_iff.1 hend) hc
      obtain ⟨later, m, past, e, htrace, hm, hv, hsame⟩ := h.heeded.of_failed h.settled hf
      have hcount := List.count_pos_iff.2 hf
      refine ⟨hsame.trans ?_, by omega⟩
      cases e with
      | fatal => exact absurd hm (hlow m (by simp [htrace])).2
      | dropped => simpa [Setup.verdict, hmax] using hv
    cases hend : t.isEnded with
    | true =>
      obtain ⟨hspent, hfailed⟩ := hlast hend
      have hp : t.position = .ended := Task.isEnded_iff.1 hend
      simp only [Task.isOpening, Task.isWaiting, hp, Position.isOpening_ended,
        Position.isWaiting_ended, Bool.toNat_false] at htries
      refine ⟨by simp [hspent], by omega, fun _ => ⟨by omega, by omega, fun hlone => ?_⟩⟩
      have hwaits := h.waits (by simpa [hlone] using hc)
      have hmine : w.trace.countP Mark.isRetreat = retreats id w.trace := by
        refine countP_isRetreat fun j s hs => ?_
        have hid : id < w.tasks.length := (List.getElem?_eq_some_iff.1 ht).1
        have hj : ¬ w.tasks.length ≤ j := fun hle =>
          hnone j (List.getElem?_eq_none hle) _ hs rfl
        rw [hlone, List.length_singleton] at hid hj
        omega
      simp [hlone, Task.isWaiting, hp] at hwaits
      omega
    | false =>
      have hne : t.position ≠ .ended := fun hp => by simp [Task.isEnded, hp] at hend
      have hleft := (hacc.running hne).2.2 hmax
      refine ⟨⟨fun h => (by cases h), fun hspent => by omega⟩, by omega, fun h => (by cases h)⟩
  case tries => exact h.tries
  case waits => exact h.waits

end World

namespace Fleet

variable {setups : Nat → Setup} {f : Fleet} {i id : Nat} {w : World} {t : Task}

theorem ledger_of_reachable (hf : Reachable setups f) (hw : f.world? i = some w) :
    World.Ledger (setups i) w := by
  obtain ⟨store, n, hs, hr⟩ := hf
  induction hr generalizing w with
  | refl =>
    rw [world?_start hw]
    exact .start store
  | @move g h j m past next ih =>
    have hstreamed : Streamed setups g := .of_reachable ⟨store, n, hs, past⟩
    obtain ⟨v, v', hv, hm, -, hi, hothers⟩ := move_cases next
    by_cases hj : j = i
    · subst hj
      rw [hi] at hw
      cases hw
      exact (ih hv).move (hstreamed.supervised hv) (hstreamed.recorded hv).unmarked hm
    · rw [hothers i hj] at hw
      obtain ⟨u, hu, rfl⟩ := Option.map_eq_some_iff.1 hw
      exact (ih hu).store _

/-- Faults and the restart budget. Every end of an attempt that its task was not kept from by a
cancellation is heeded at once: the task fails on a protocol fault, and on the last drop in a row
that its policy allows, and else waits one delay and attempts again (`World.Budget`,
`World.Advance`); nobody else moves it. -/
theorem restart_budget (hf : Reachable setups f) (hw : f.world? i = some w)
    (ht : w.tasks[id]? = some t) :
    World.Budget (setups i) w id t ∧
    (∀ w', w.move (setups i) (.step (.task id)) = some w' → t.cancelled = false →
      ∃ t', w'.tasks[id]? = some t' ∧ World.Advance (setups i) w id t w' t') ∧
    ∀ m w', w.move (setups i) m = some w' → m ≠ .step (.task id) →
      ∃ t', w'.tasks[id]? = some t' ∧ t'.position.clear = t.position.clear := by
  have hledger := ledger_of_reachable hf hw
  have hstreamed := Streamed.of_reachable hf
  have hsup := hstreamed.supervised hw
  refine ⟨hledger.budget ht (hstreamed.recorded hw).unmarked, fun w' hm hc => ?_,
    fun m w' hm hne => World.stands_still ht hm hne⟩
  obtain ⟨u, hu, hm⟩ := Option.bind_eq_some_iff.1 hm
  cases hu.symm.trans ht
  unfold World.stepTask at hm
  split at hm
  · cases hm
  · next he =>
    have he : t.isEnded = false := by simpa using he
    rw [if_neg (by simp [hc])] at hm
    by_cases hwait : ∃ due, t.position = .waiting due
    · obtain ⟨due, hp⟩ := hwait
      exact World.advance_waiting ht hp hm
    · have hne : t.position ≠ .ended := fun hp => by simp [Task.isEnded, hp] at he
      have hnot : t.isWaiting = false := by
        unfold Task.isWaiting Position.isWaiting
        split
        · next due hp => exact absurd ⟨due, hp⟩ hwait
        · rfl
      exact hledger.advance ht hne hnot
        ((World.advanceTask_cases hm).fate hsup (World.heard_of_task hsup ht he hc))

/-- A task that may make two attempts, on a store that cannot be reached, restarts once. -/
theorem restart_budget_unreachable :
    ∃ f w t, Reachable (fun _ => .limited "me@here" 2) f ∧ f.world? 0 = some w ∧
      w.tasks = [t] ∧ t.isEnded = true ∧ t.cancelled = false ∧ attempts 0 w.trace = 2 ∧
      retreats 0 w.trace = 1 ∧ w.counters.subscriptionRestarts = 1 ∧
      w.counters.subscriptionFailures = w.trace.countP Mark.isFailure := by
  obtain ⟨f, w, hf, hw, hp⟩ := exists_of_run (fun _ => .limited "me@here" 2) .usual 1 0
    [(0, .ask 0 (.setUnavailable true)), (0, .ask 1 (.attach "c" "l")), (0, .step (.task 0)),
      (0, .elapse 500000000), (0, .step (.task 0)), (0, .step (.task 0))]
    (fun w => (w.tasks.length == 1) && (w.tasks[0]?).any fun t => t.isEnded && !t.cancelled &&
      w.trace.all fun m => decide (m ≠ .published 0 .active) &&
        decide ((Setup.limited "me@here" 2).ending? m ≠ some (0, .fatal))) rfl (by decide +kernel)
  obtain ⟨hlength, hp⟩ := Bool.and_eq_true_iff.1 hp
  obtain ⟨t, ht, hp⟩ := (Option.any_eq_true _ _).1 hp
  simp only [Bool.and_eq_true, Bool.not_eq_true', List.all_eq_true, decide_eq_true_eq] at hp
  obtain ⟨⟨hend, hc⟩, hlow⟩ := hp
  have hlone : w.tasks = [t] := by
    obtain ⟨u, hu⟩ := List.length_eq_one_iff.1 (eq_of_beq hlength)
    rw [hu] at ht ⊢
    simpa using ht
  obtain ⟨hbudget, -, -⟩ := restart_budget hf hw ht
  obtain ⟨hattempts, hretreats, hrestarts⟩ := (hbudget.limited (by decide) hc hlow).2.2 hend
  exact ⟨f, w, t, hf, hw, hlone, hend, hc, hattempts, hretreats, hrestarts hlone, hbudget.counted⟩

end Fleet

end Muster
