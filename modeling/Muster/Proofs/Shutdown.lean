import Muster.Proofs.Calls

/-!
# What a shutdown waits for

A shutdown cancels every task, takes the handles out and waits for the tasks that it found there.
Tasks that lost their handle before are not among them. Every open stream of the store is held by a
task (`Fleet.Holds`), so that the streams that are left are those of such tasks, or of other clients.
-/
namespace Muster

/-! ## Who holds a stream -/

/-- A stream that is open after a step is the one that the task has then, or it was open before and
not the task's. -/
theorem Flow.held {key : String} {a a' : Attempt} {p p' : Position} {m m' : Memory}
    (h : Flow key a p m a' p' m') {key' : String} {s : Nat} (ho : m'.position? key' s ≠ none) :
    key = key' ∧ p'.stream? = some s ∨
      m.position? key' s ≠ none ∧ ¬(key = key' ∧ p.stream? = some s) := by
  -- The task closes its stream.
  have closed : ∀ {m₁ : Memory} {s₀ : Nat}, p.stream? = some s₀ → m' = m₁.close key s₀ →
      (m₁.position? key' s ≠ none → m.position? key' s ≠ none) →
      m.position? key' s ≠ none ∧ ¬(key = key' ∧ p.stream? = some s) := by
    intro m₁ s₀ hp hm' hbefore
    rw [hm', Memory.position?_close] at ho
    split at ho
    · exact absurd rfl ho
    · next hne =>
      refine ⟨hbefore ho, fun ⟨hk, hs⟩ => hne ⟨hk, ?_⟩⟩
      exact Option.some.inj (hp.symm.trans hs)
  cases h with
  | calm _ _ hp hm =>
    rw [hm.position] at ho
    by_cases hmine : key = key' ∧ p.stream? = some s
    · exact .inl ⟨hmine.1, hp.trans hmine.2⟩
    · exact .inr ⟨ho, hmine⟩
  | refused _ _ hm hnone =>
    rw [hm.position] at ho
    exact .inr ⟨ho, fun hmine => by simp [hnone] at hmine⟩
  | @opened s₀ _ _ hp hm hnone =>
    by_cases hnew : key = key' ∧ s₀ = s
    · exact .inl ⟨hnew.1, hnew.2 ▸ hp⟩
    · rw [Memory.position?_of_subscribe hm hnew] at ho
      exact .inr ⟨ho, fun hmine => by simp [hnone] at hmine⟩
  | closed _ _ hp _ hm hm' =>
    exact .inr (closed hp hm' fun h => by rwa [hm.position] at h)
  | @took s₀ x m₁ _ _ hp hm hp' =>
    have hbefore : m₁.position? key' s ≠ none → m.position? key' s ≠ none :=
      Memory.position?_of_next hm
    rcases hp' with ⟨hp', rfl⟩ | ⟨-, hm'⟩
    · by_cases hmine : key = key' ∧ p.stream? = some s
      · exact .inl ⟨hmine.1, by rw [hp', ← hp, hmine.2]⟩
      · exact .inr ⟨hbefore ho, hmine⟩
    · exact .inr (closed hp hm' hbefore)
  | lost _ _ hp _ hm hm' => exact .inr (closed hp hm' (Memory.position?_of_next hm))

namespace Fleet

variable {setups : Nat → Setup} {f g : Fleet} {i j id : Nat} {m : Move} {key : String} {s : Nat}

/-- A task of a client holds a stream of a channel. -/
def Holds (f : Fleet) (i id : Nat) (key : String) (s : Nat) : Prop :=
  ∃ w t, f.world? i = some w ∧ w.tasks[id]? = some t ∧ registryKey t.cluster = key ∧
    t.position.stream? = some s

/-- Every open stream of the store is held by somebody. -/
def Tenanted (f : Fleet) : Prop :=
  ∀ key s, f.store.position? key s ≠ none → ∃ i id, f.Holds i id key s

/-- Whoever holds a stream has not ended. -/
theorem Holds.live {v : World} (h : f.Holds i id key s) (hv : f.world? i = some v) :
    v.hasEnded id = false := by
  obtain ⟨w, t, hw, ht, -, hstream⟩ := h
  cases hv.symm.trans hw
  have he : t.isEnded = false := Task.isEnded_of_ne fun hend => by
    rw [hend] at hstream
    cases hstream
  simp [World.hasEnded, ht, he]

/-- Whoever held a stream holds it still, or made the move. -/
theorem Holds.others (h : f.Holds j id key s) {w w' : World} (hi : g.world? i = some w')
    (hw : f.world? i = some w) (hothers : ∀ j, i ≠ j → g.world? j =
      (f.world? j).map fun v => { v with store := w'.store })
    (e : i = j → World.Elsewhere id w w') : g.Holds j id key s := by
  obtain ⟨v, t, hv, ht, hkey, hs⟩ := h
  by_cases hj : i = j
  · subst hj
    cases hw.symm.trans hv
    obtain ⟨t', ht', hc, hp, -⟩ := (e rfl).task t ht
    exact ⟨w', t', hi, ht', hc ▸ hkey, hp ▸ hs⟩
  · exact ⟨{ v with store := w'.store }, t, by rw [hothers j hj, hv]; rfl, ht, hkey, hs⟩

theorem Tenanted.move (h : Tenanted f) (hf : Streamed setups f)
    (next : f.move setups i m = some g) : Tenanted g := by
  obtain ⟨w, w', hw, hm, hg, hi, hothers⟩ := move_cases next
  obtain ⟨-, hshift⟩ := (hf.recorded hw).move (hf.supervised hw) hm
  have hstore := store_of_world? hw
  intro key s ho
  rw [hg] at ho
  cases hshift with
  | others e hcalm =>
    rw [hcalm.position, hstore] at ho
    obtain ⟨j, id, hold⟩ := h key s ho
    exact ⟨j, id, hold.others hi hw hothers fun _ => e id⟩
  | @own id₀ t₀ t₁ ht₀ ht₁ hc e flow =>
    rcases flow.held ho with ⟨hkey, hs⟩ | ⟨ho, hmine⟩
    · exact ⟨i, id₀, w', t₁, hi, ht₁, hc ▸ hkey, hs⟩
    · rw [hstore] at ho
      obtain ⟨j, id, hold⟩ := h key s ho
      refine ⟨j, id, hold.others hi hw hothers fun hj => e id fun hid => hmine ?_⟩
      -- The stream was not the one of the task that made the step.
      subst hj hid
      obtain ⟨v, t, hv, ht, hkey, hs⟩ := hold
      cases hw.symm.trans hv
      cases ht₀.symm.trans ht
      exact ⟨hkey, hs⟩

theorem tenanted_of_reachable (hf : Reachable setups f) : Tenanted f := by
  obtain ⟨store, n, hs, hr⟩ := hf
  induction hr with
  | refl =>
    intro key s ho
    have hnone : store.channels.get? key = none := by simp [Table.get?, hs, Table.find?]
    simp [Fleet.start, Memory.position?, hnone] at ho
  | move past next ih => exact ih.move (.of_reachable ⟨store, n, hs, past⟩) next

end Fleet

/-! ## The tasks that a shutdown finds -/

namespace World

variable {setup : Setup} {w v w' : World} {id : Nat} {m : Move} {who : Actor} {c : String}

/-- The task was cancelled and has not ended yet. -/
def Lingers (w : World) (id : Nat) : Prop :=
  ∃ t : Task, w.tasks[id]? = some t ∧ t.cancelled = true ∧ t.isEnded = false

/-- A shutdown closes the client and starts no task. -/
theorem closed_of_shutdown (hb : w.begins? m = some (who, .shutdown))
    (hm : w.move setup m = some w') :
    w'.closed = true ∧ ∀ id : Nat, (w'.tasks[id]?).isSome → (w.tasks[id]?).isSome := by
  obtain ⟨mark, v, p, -, -, hrun, hset⟩ := move_of_begins hb hm
  have hdrain : (w.note mark).close.2.drain (w.note mark).close.1 = (v, p) := hrun
  have hv : v = (w.note mark).close.2 := by
    unfold drain at hdrain
    split at hdrain <;> cases hdrain <;> rfl
  have hsome : ∀ (u : World) (id : Nat), (u.tasks[id]?).isSome = (u.charge? id).isSome :=
    fun u id => by rw [charge?, Option.isSome_map]
  refine ⟨by rw [hset.closed, hv]; rfl, fun id h => ?_⟩
  rw [hsome, hset.charge, ← hsome, hv] at h
  simpa [World.close, cancelAll, note] using h

/-- A call that waits for the task of a cluster, as it has begun. -/
theorem awaited_of_begins {a : Action} (hs : Supervised w) (hb : w.begins? m = some (who, a))
    (hm : w.move setup m = some w') (hh : w.handles.get? c = some id)
    (hwait : ∀ mark v p, (w.note mark).begin setup who a = (v, p) → v.handles = w'.handles →
      v.hasEnded id = true ∨ ∃ stage, p.stage? = some stage ∧ id ∈ stage.awaited) :
    w'.Awaited who [id] := by
  intro k hk
  cases List.mem_singleton.1 hk
  obtain ⟨ch, -, hch, -⟩ := hs.handle hh
  obtain ⟨t, ht, -⟩ := Option.map_eq_some_iff.1 hch
  obtain ⟨t', ht', -⟩ := (Lasts.move hm).task ht
  obtain ⟨mark, v, p, -, -, hrun, hset⟩ := move_of_begins hb hm
  refine ⟨t', ht', ?_⟩
  rcases hwait mark v p hrun hset.handles.symm with hend | ⟨stage, hstage, hmem⟩
  · exact .inl (hset.isEnded ht' hend)
  · exact .inr ⟨stage, hset.mine.trans hstage, hmem⟩

/-- A shutdown waits for every task that has a handle. -/
theorem awaited_of_shutdown (hs : Supervised w) (hb : w.begins? m = some (who, .shutdown))
    (hm : w.move setup m = some w') (hh : w.handles.get? c = some id) : w'.Awaited who [id] := by
  refine awaited_of_begins hs hb hm hh fun mark v p hrun _ => ?_
  have hmem : id ∈ (w.note mark).close.1 := List.mem_map.2 ⟨(c, id), Table.mem_of_get? hh, rfl⟩
  obtain ⟨rfl, hwait⟩ := drain_awaited hrun hmem
  exact hwait

end World

/-! ## Main results -/

namespace Fleet

variable {setups : Nat → Setup} {f g₀ g : Fleet} {i : Nat} {w v : World} {m : Move} {who : Actor}

/-- A shutdown that was begun by a call, or by a listener, and is not given up: when it has been
answered, every task whose handle it found has ended. A task that has not ended by then had been
cancelled before the shutdown began; and every open stream of the store is held by such a task, or
by one of another client. -/
theorem shutdown_drains (hf : Reachable setups f) (hw : f.world? i = some w)
    (hb : w.begins? m = some (who, .shutdown)) (next : f.move setups i m = some g₀)
    (hr : Unbroken setups i who g₀ g) (hv : g.world? i = some v) (hdone : v.stage? who = none) :
    v.closed = true ∧
    (∀ c id, w.handles.get? c = some id → v.hasEnded id = true) ∧
    (∀ id, v.hasEnded id = false → w.Lingers id) ∧
    ∀ key s, v.store.position? key s ≠ none →
      ∃ j id, g.Holds j id key s ∧ (j = i → w.Lingers id) := by
  obtain ⟨u, w', hu, hm, -, hi, -⟩ := move_cases next
  cases hw.symm.trans hu
  have hs := (Streamed.of_reachable hf).supervised hw
  have hreach := hf.reaches (.move .refl next)
  obtain ⟨hlasts, hclosed⟩ := hr.reaches.lasts hi hv
  have waited : ∀ {id}, w'.Awaited who [id] → v.hasEnded id = true :=
    fun hwait => hr.ended hreach hi hwait hv hdone
  have hended : ∀ c id, w.handles.get? c = some id → v.hasEnded id = true :=
    fun c id hh => waited (World.awaited_of_shutdown hs hb hm hh)
  have hleft : ∀ id, v.hasEnded id = false → w.Lingers id := by
    intro id hrun
    obtain ⟨hshut, hold⟩ := World.closed_of_shutdown hb hm
    have hlt : id < v.tasks.length := by
      refine Decidable.byContradiction fun hge => ?_
      simp [World.hasEnded, List.getElem?_eq_none (Nat.le_of_not_lt hge)] at hrun
    rw [hlasts.length hshut] at hlt
    obtain ⟨t, ht⟩ := Option.isSome_iff_exists.1 (hold id (by simp [hlt]))
    have he : t.isEnded = false := by
      refine Bool.eq_false_iff.2 fun hend => ?_
      obtain ⟨t', ht', hend'⟩ := World.ended_of_move hm ht hend
      have hwait : w'.Awaited who [id] := fun k hk => by
        cases List.mem_singleton.1 hk
        exact ⟨t', ht', .inl hend'⟩
      rw [waited hwait] at hrun
      cases hrun
    cases hcan : t.cancelled with
    | true => exact ⟨t, ht, hcan, he⟩
    | false =>
      rw [hended t.cluster id (hs.held (World.charge?_of_task ht) he hcan)] at hrun
      cases hrun
  refine ⟨hclosed (World.closed_of_shutdown hb hm).1, hended, hleft, fun key s ho => ?_⟩
  rw [store_of_world? hv] at ho
  obtain ⟨j, id, hold⟩ := tenanted_of_reachable (hreach.reaches hr.reaches) key s ho
  refine ⟨j, id, hold, fun hj => hleft id ?_⟩
  subst hj
  exact hold.live hv

/-- A listener is attached, its task opens a stream, and a shutdown waits for it. -/
theorem shutdown_drains_stream : ∃ f w g₀ g v,
    Reachable (fun _ => .plain "me@here") f ∧ f.world? 0 = some w ∧
    f.move (fun _ => .plain "me@here") 0 (.ask 1 .shutdown) = some g₀ ∧
    Unbroken (fun _ => .plain "me@here") 0 (.call 1) g₀ g ∧ g.world? 0 = some v ∧
    v.stage? (.call 1) = none ∧ w.handles.get? "c" = some 0 ∧ ¬ w.Lingers 0 ∧
    (w.store.position? "registry.redis.c" 0).isSome = true ∧ v.hasEnded 0 = true ∧
    ∀ key s, v.store.position? key s ≠ none →
      ∃ j id, g.Holds j id key s ∧ (j = 0 → w.Lingers id) := by
  obtain ⟨f, hf, hp⟩ := (Option.any_eq_true _ _).1 (show
    ((start .usual 1).run (fun _ => .plain "me@here")
      [(0, .ask 0 (.attach "c" "a")), (0, .step (.task 0))]).any (fun f => (f.world? 0).any fun w =>
        w.begins? (.ask 1 .shutdown) == some (.call 1, .shutdown) &&
        w.handles.get? "c" == some 0 && (w.tasks[0]?).all (fun t => !t.cancelled) &&
        (w.store.position? "registry.redis.c" 0).isSome &&
        (f.move (fun _ => .plain "me@here") 0 (.ask 1 .shutdown)).any fun g₀ =>
          (g₀.runUnbroken (fun _ => .plain "me@here") 0 (.call 1)
            [(0, .step (.task 0)), (0, .step (.call 1))]).any fun g =>
            (g.world? 0).any fun v => v.stage? (.call 1) == none) = true by decide +kernel)
  simp only [Option.any_eq_true, Bool.and_eq_true, beq_iff_eq] at hp
  obtain ⟨w, hw, ⟨⟨⟨hb, hh⟩, hcan⟩, hopen⟩, g₀, next, g, hg, v, hv, hdone⟩ := hp
  have hreach := reachable_of_run rfl hf
  obtain ⟨-, hended, -, hheld⟩ :=
    shutdown_drains hreach hw hb next (unbroken_of_run hg) hv hdone
  refine ⟨f, w, g₀, g, v, hreach, hw, next, unbroken_of_run hg, hv, hdone, hh, ?_, hopen,
    hended "c" 0 hh, hheld⟩
  rintro ⟨t, ht, hcancelled, -⟩
  simp [ht, hcancelled] at hcan

/-- A shutdown that is begun while another one waits is answered at once, although a task of the
client is still at work and its stream is open. -/
theorem shutdown_returns_early : ∃ f w past, Reachable (fun _ => .plain "me@here") f ∧
    f.world? 0 = some w ∧ w.trace = .answered 2 .done :: .asked 2 .shutdown :: past ∧
    w.hasEnded 0 = false ∧ w.store.subscribers "registry.redis.c" = 1 ∧
    f.Holds 0 0 "registry.redis.c" 0 := by
  obtain ⟨f, w, hf, hw, hp⟩ := exists_of_run (fun _ => .plain "me@here") .usual 1 0
    [(0, .ask 0 (.attach "c" "a")), (0, .step (.task 0)), (0, .ask 1 .shutdown),
      (0, .ask 2 .shutdown)]
    (fun w => w.trace.take 2 == [.answered 2 .done, .asked 2 .shutdown] && !w.hasEnded 0 &&
      w.store.subscribers "registry.redis.c" == 1 &&
      (w.tasks[0]?).any fun t => registryKey t.cluster == "registry.redis.c" &&
        t.position.stream? == some 0)
    rfl (by decide +kernel)
  simp only [Bool.and_eq_true, Bool.not_eq_true', beq_iff_eq, Option.any_eq_true] at hp
  obtain ⟨⟨⟨hlast, hrun⟩, hone⟩, t, ht, hkey, hstream⟩ := hp
  have htrace : w.trace = .answered 2 .done :: .asked 2 .shutdown :: w.trace.drop 2 := by
    conv => lhs; rw [← List.take_append_drop 2 w.trace, hlast]
    rfl
  exact ⟨f, w, _, hf, hw, htrace, hrun, hone, w, t, hw, ht, hkey, hstream⟩

end Fleet

end Muster
