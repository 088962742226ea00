import Muster.Proofs.Delivery
import Muster.Proofs.RegistrationEras
import Muster.Proofs.Statuses

/-!
# The life of a status

A cluster is active only while its newest task holds an open stream on which every listener of the
first pass has answered (`Underway`). When the last listener has left and the cancelled task has
ended, the status is final, and it tells of a failure only if the task had failed before.
-/
namespace Muster

/-- The call was answered in a way that lets the attempt go on. -/
def Answered (id : Nat) (since : List Mark) (v : Visit) : Prop :=
  ∃ fault, v.2.isBroken fault = false ∧ .returned id v.1 v.2 fault ∈ since

/-- What a task has done since it opened its stream: all calls but the current one are answered,
and those of the first pass before it became active. -/
def Underway (c : String) (id : Nat) (trace : List Mark) (a : Attempt) : Prop :=
  ∃ since s start past, trace = since ++ .opened id s start :: past ∧
    streamOf id trace = some s ∧ a.first = visitsTo (registered c past) .sync ∧
    (∀ v ∈ a.calls, a.phase = .within v ∨ Answered id since v) ∧
    (a.active = true → ∀ v ∈ a.first, Answered id since v)

section
variable {setup : Setup} {c : String} {id : Nat} {m : Mark} {past later trace : List Mark}
  {a a' : Attempt} {s : Status}

theorem Answered.cons {v : Visit} (h : Answered id past v) : Answered id (m :: past) v := by
  obtain ⟨fault, hb, hmem⟩ := h
  exact ⟨fault, hb, List.mem_cons_of_mem _ hmem⟩

theorem Underway.cons (h : Underway c id past a) (hm : ∀ s start, m ≠ .opened id s start)
    (hfirst : a'.first = a.first)
    (hcalls : ∀ v ∈ a'.calls, a'.phase = .within v ∨ (v ∈ a.calls ∧ a.phase ≠ .within v) ∨
      Answered id [m] v)
    (hactive : a'.active = true → a.active = true ∨ a.phase = .between ∧ a.calls = a.first) :
    Underway c id (m :: past) a' := by
  obtain ⟨since, s, start, before, rfl, hstream, hvisits, hans, hfull⟩ := h
  have hmstream : streamOf id (m :: (since ++ .opened id s start :: before)) = some s := by
    cases m with
    | opened i s' start' =>
      have hi : i ≠ id := fun hi => hm s' start' (hi ▸ rfl)
      exact (if_neg hi).trans hstream
    | _ => exact hstream
  refine ⟨m :: since, s, start, before, rfl, hmstream, hfirst.trans hvisits, fun v hv => ?_,
    fun hact v hv => ?_⟩
  · rcases hcalls v hv with hin | ⟨hold, hout⟩ | ⟨fault, hb, hmem⟩
    · exact .inl hin
    · rcases hans v hold with hin | hdone
      · exact absurd hin hout
      · exact .inr hdone.cons
    · exact .inr ⟨fault, hb, List.mem_cons.2 (.inl (List.mem_singleton.1 hmem))⟩
  · rw [hfirst] at hv
    rcases hactive hact with hold | ⟨hphase, hall⟩
    · exact (hfull hold v hv).cons
    · rcases hans v (hall ▸ hv) with hin | hdone
      · rw [hphase] at hin
        cases hin
      · exact hdone.cons

theorem Laws.underway (h : Laws setup c id trace) (hp : (attempt setup c id trace).phase ≠ .over) :
    Underway c id trace (attempt setup c id trace) := by
  induction trace with
  | nil => exact absurd rfl hp
  | cons m past ih =>
    have hlaw := h.1
    have ih := ih h.2
    have hg := Laws.grows h hp
    generalize ha : attempt setup c id past = a at *
    generalize ha' : attempt setup c id (m :: past) = a' at *
    cases hg with
    | other ho =>
      refine (ih hp).cons (fun s start hm => ho (by rw [hm]; rfl)) rfl (fun v hv => ?_) .inl
      by_cases hv' : a.phase = .within v
      · exact .inl hv'
      · exact .inr (.inl ⟨hv, hv'⟩)
    | @opened s start _ hcalls =>
      obtain ⟨queue, before, rfl⟩ := hlaw rfl
      have hcold : a.active = false := by
        rw [← ha]
        simp [attempt, Attempt.after]
      refine ⟨[], s, start, _, rfl, if_pos rfl, rfl, fun v hv => ?_, fun hact => ?_⟩
      · rw [show a.calls = [] from hcalls] at hv
        cases hv
      · rw [show a.active = true from hact] at hcold
        cases hcold
    | took hphase =>
      exact (ih (by simp [hphase])).cons (by simp) rfl
        (fun v hv => .inr (.inl ⟨hv, by simp [hphase]⟩)) .inl
    | called hphase =>
      refine (ih (by simp [hphase])).cons (by simp) rfl (fun v hv => ?_) .inl
      rcases List.mem_append.1 hv with hv | hv
      · exact .inr (.inl ⟨hv, by simp [hphase]⟩)
      · exact .inl (by rw [List.mem_singleton.1 hv])
    | @returned l hook fault _ hphase hb =>
      refine (ih (by simp [hphase])).cons (by simp) rfl (fun v hv => ?_) .inl
      by_cases hv' : v = (l, hook)
      · subst hv'
        exact .inr (.inr ⟨fault, hb, List.mem_singleton.2 rfl⟩)
      · exact .inr (.inl ⟨hv, by simpa [hphase] using fun h => hv' h.symm⟩)
    | read hphase =>
      exact (ih (by simp [hphase])).cons (by simp) rfl
        (fun v hv => .inr (.inl ⟨hv, by simp [hphase]⟩)) .inl
    | dispatched _ hphase =>
      refine (ih hphase).cons (by simp) rfl (fun v hv => ?_) .inl
      by_cases hv' : a.phase = .within v
      · exact .inl hv'
      · exact .inr (.inl ⟨hv, hv'⟩)
    | @wrote _ _ active hm hphase =>
      refine (ih hphase).cons ?_ rfl (fun v hv => ?_) fun hact => ?_
      · rcases hm with rfl | ⟨s, rfl⟩ <;> simp
      · by_cases hv' : a.phase = .within v
        · exact .inl hv'
        · exact .inr (.inl ⟨hv, hv'⟩)
      · -- Only the write that it is active makes an attempt so.
        rcases hm with rfl | ⟨s, rfl⟩
        · exact .inl ((congrArg Attempt.active (ha.symm.trans ha')).trans hact)
        · cases s with
          | active =>
            obtain ⟨hbetween, hall, -⟩ := hlaw rfl
            rw [ha] at hbetween hall
            exact .inr ⟨hbetween, hall⟩
          | _ => exact .inl ((congrArg Attempt.active (ha.symm.trans ha')).trans hact)

theorem spawned_of_newest (h : newest c trace = some id) : ∃ g, .spawned id c g ∈ trace := by
  induction trace with
  | nil => cases h
  | cons m past ih =>
    have older : newest c past = some id → ∃ g, .spawned id c g ∈ m :: past := fun h => by
      obtain ⟨g, hmem⟩ := ih h
      exact ⟨g, List.mem_cons_of_mem _ hmem⟩
    cases m with
    | spawned i c' g =>
      simp only [newest] at h
      split at h
      · next hc =>
        cases h
        exact ⟨g, hc ▸ List.mem_cons_self⟩
      · exact older h
    | _ => exact older h

/-- A status is the one a generation starts with, or its newest task wrote it. -/
theorem published_of_statuses (hs : (statuses c trace).head? = some s)
    (h : newest c trace = some id) (hstart : s ≠ .starting) : .published id s ∈ trace := by
  induction trace with
  | nil => cases h
  | cons m past ih =>
    have older : (statuses c past).head? = some s → newest c past = some id →
        .published id s ∈ m :: past := fun hs h => List.mem_cons_of_mem _ (ih hs h)
    cases m with
    | spawned i c' g =>
      simp only [newest, statuses] at h hs
      split at h
      · next hc =>
        rw [if_pos hc] at hs
        cases hs
        exact absurd rfl hstart
      · next hc =>
        rw [if_neg hc] at hs
        exact older hs h
    | published i s' =>
      simp only [newest, statuses] at h hs
      split at hs
      · next hi =>
        cases hs
        cases h.symm.trans hi
        exact List.mem_cons_self
      · exact older hs h
    | _ => exact older hs h

theorem statuses_eq_nil (h : newest c trace = none) : statuses c trace = [] := by
  induction trace with
  | nil => rfl
  | cons m past ih =>
    cases m with
    | spawned i c' g =>
      simp only [newest, statuses] at h ⊢
      split at h
      · cases h
      · next hc =>
        rw [if_neg hc]
        exact ih h
    | published i s' => exact (if_neg (by rw [show newest c past = none from h]; simp)).trans (ih h)
    | _ => exact ih h

/-- No task is started without a listener that comes. -/
theorem newest_of_later (h : Rightful (later ++ past))
    (hl : ∀ l joined, .attached c l joined ∉ later)
    (hpast : ∀ l before, past ≠ .attached c l false :: before) :
    newest c (later ++ past) = newest c past := by
  induction later with
  | nil => rfl
  | cons m rest ih =>
    have ih := ih h.2 fun l joined hmem => hl l joined (List.mem_cons_of_mem _ hmem)
    cases m with
    | spawned i c' g =>
      obtain ⟨l, before, hbefore⟩ := h.1
      have hc : c' ≠ c := by
        rintro rfl
        cases rest with
        | nil => exact hpast l before hbefore
        | cons m' rest =>
          cases (List.cons.inj hbefore).1
          exact hl l false (by simp)
      exact (if_neg hc).trans ih
    | _ => exact ih

/-- The attempt of an active task is under way and has called its first listeners. -/
theorem Attempt.Follows.of_active {p : Position} (h : a.Follows p) (hp : p.Suits .active) :
    a.phase ≠ .over ∧ a.active = true := by
  cases p with
  | opening => rcases hp with hp | hp <;> cases hp
  | waiting | ended => cases hp
  | listening => exact ⟨by simp [h.1], h.2.2⟩
  | passing _ pass | calling _ pass =>
    refine ⟨by simp [h.1], ?_⟩
    cases pass with
    | full => rcases hp with hp | hp <;> cases hp
    | _ => exact h.2.2

end

namespace World

theorem Ruled.status {w : World} (h : Ruled w) (c : String) :
    w.status? c = (statuses c w.trace).head? := by
  unfold World.status?
  cases hs : w.slots.get? c with
  | some s => exact (h.slot hs).1.symm
  | none =>
    cases hn : Muster.newest c w.trace with
    | some id =>
      obtain ⟨t, s, -, -, hs', -⟩ := h.newest.1 hn
      rw [hs] at hs'
      cases hs'
    | none =>
      rw [statuses_eq_nil hn]
      rfl

variable {setup : Setup} {w v : World} {c name : String} {id : Nat} {who : Actor} {p : Progress}

/-- A call that takes the task of the cluster out has to wait until the task has ended. -/
theorem detach_takes {guarded : Bool} (hh : w.handles.get? c = some id)
    (h : w.begin setup who (.detach c name guarded) = (v, p)) (hv : v.handles.get? c = none) :
    v.trace = .cancelled id :: .detached c (.user name) :: w.trace ∧
    (p = .finished (.truth true) ∧ v.hasEnded id = true ∨ p = .paused (.joining id)) := by
  have stays : ∀ {p' : Progress}, (w, p') ≠ (v, p) := fun heq => by
    cases heq
    rw [hh] at hv
    cases hv
  change w.beginDetach c (.user name) guarded = (v, p) at h
  unfold beginDetach at h
  split at h
  · exact absurd h stays
  · unfold World.detach at h
    rcases hr : w.listeners.remove c (.user name) with ⟨left, listeners⟩
    rw [hr] at h
    rcases left with _ | _ | n
    · exact absurd h stays
    · simp only [hh] at h
      split at h
      · next heq =>
        split at heq
        · next hend =>
          cases heq
          cases h
          exact ⟨rfl, .inl ⟨rfl, hend⟩⟩
        · cases heq
      · next heq =>
        split at heq
        · cases heq
        · cases heq
          cases h
          exact ⟨rfl, .inr rfl⟩
    · cases h
      exact absurd (hh.symm.trans hv) (by simp)

theorem joining_ends (h : w.resume setup who (.joining id) = some (v, p)) :
    v = w ∧ w.hasEnded id = true ∧ p = .finished (.truth true) := by
  simp only [resume] at h
  split at h
  · next hend =>
    cases h
    exact ⟨rfl, hend, rfl⟩
  · cases h

/-- A task that has ended does nothing any more. -/
theorem ended_of_move {m : Move} {w' : World} {t : Task} (hm : w.move setup m = some w')
    (ht : w.tasks[id]? = some t) (hend : t.isEnded = true) :
    ∃ t' : Task, w'.tasks[id]? = some t' ∧ t'.isEnded = true := by
  have elsewhere : Elsewhere id w w' → ∃ t' : Task, w'.tasks[id]? = some t' ∧ t'.isEnded = true := by
    intro he
    obtain ⟨t', ht', -, hp, -⟩ := he.task t ht
    exact ⟨t', ht', by rw [Task.isEnded, hp]; exact hend⟩
  -- The task that makes the move has not ended.
  have other : ∀ {j : Nat} {u : Task}, w.tasks[j]? = some u → u.isEnded = false → j ≠ id := by
    rintro j u hu he rfl
    cases ht.symm.trans hu
    rw [hend] at he
    cases he
  cases move_cases hm with
  | edits he => exact elsewhere (.edits he)
  | @cleared j u hu =>
    by_cases hj : j = id
    · subst hj
      cases ht.symm.trans hu
      refine ⟨{ t with position := t.position.clear }, by simp [moveTask, updateTask, ht], ?_⟩
      exact Task.isEnded_iff.2 (Position.clear_eq_ended.2 (Task.isEnded_iff.1 hend))
    · exact elsewhere (.updateTask w j _ fun h => absurd h hj)
  | stopped hu he => exact elsewhere (.finishes (other hu he) (stopTask_finishes w))
  | went hu he _ hstep => exact elsewhere (.turn (other hu he) (hstep.turn he))

/-- The life of the status of a cluster, whatever older tasks of it are still at work. -/
structure Lifecycle (setup : Setup) (w : World) (c : String) : Prop where
  /-- The status is the last one of the generation. -/
  status : w.status? c = (statuses c w.trace).head?
  /-- The generation is that of the newest task. -/
  newest : ∀ id, Muster.newest c w.trace = some id ↔ w.Leads c id
  /-- Whoever wrote a status was the newest task then. -/
  writes : ∀ id t s past, w.tasks[id]? = some t → t.cluster = c →
    .published id s :: past <:+ w.trace → Muster.newest c past = some id
  /-- A task that was superseded changes nothing. -/
  superseded : ∀ id t s, w.tasks[id]? = some t → t.cluster = c →
    Muster.newest c w.trace ≠ some id → w.publish id t s = w
  /-- A generation begins by starting and does not start again, and a final status is the last. -/
  order : ∀ before s after, statuses c w.trace = after ++ s :: before →
    (s = .starting ↔ before = []) ∧ (s.isTerminal = true → after = [])
  /-- An active cluster has a task with an open stream, on which the listeners of the first pass
  were synchronised. -/
  active : w.status? c = some .active → ∃ id t s start since past,
    w.Leads c id ∧ w.tasks[id]? = some t ∧ t.position.stream? = some s ∧
    (w.store.position? (registryKey c) s).isSome ∧
    w.trace = since ++ .opened id s start :: past ∧
    ∀ l ∈ registered c past, .returned id l .sync none ∈ since
  /-- A call that detaches the last listener cancels the task that it takes out, and is answered at
  once only if the task has ended. -/
  takes : ∀ who name guarded id v p, w.handles.get? c = some id →
    w.begin setup who (.detach c name guarded) = (v, p) → v.handles.get? c = none →
    v.trace = .cancelled id :: .detached c (.user name) :: w.trace ∧
    (p = .finished (.truth true) ∧ v.hasEnded id = true ∨ p = .paused (.joining id))
  /-- Otherwise it is answered when the task has ended. -/
  joins : ∀ who id v p, w.resume setup who (.joining id) = some (v, p) →
    v = w ∧ w.hasEnded id = true ∧ p = .finished (.truth true)
  /-- A task that has ended does not come back. -/
  lasting : ∀ (id : Nat) (t : Task) m w', w.tasks[id]? = some t → t.isEnded = true →
    w.move setup m = some w' → ∃ t' : Task, w'.tasks[id]? = some t' ∧ t'.isEnded = true
  /-- Then the status is final as long as nobody comes. -/
  left : ∀ id l later past, w.trace = later ++ .cancelled id :: .detached c l :: past →
    (∀ l joined, .attached c l joined ∉ later) → w.hasEnded id = true →
    w.status? c = some .stopped ∨ w.status? c = some .failed ∧ .published id .failed ∈ past

end World

namespace Fleet

variable {setups : Nat → Setup} {f : Fleet} {i : Nat} {w : World}

/-- The status of every cluster keeps to its life cycle, in every state that a client can reach. -/
theorem status_life_cycle (hf : Reachable setups f) (hw : f.world? i = some w) (c : String) :
    w.Lifecycle (setups i) c := by
  have hr := World.Ruled.of_reachable hf hw
  have hstatus := hr.status c
  constructor
  case status => exact hstatus
  case newest => exact fun _ => hr.newest
  case writes =>
    intro id t s past ht hc hsuffix
    obtain ⟨-, -, ⟨c', hn⟩, -⟩ := hr.rightful.of_suffix hsuffix
    obtain ⟨g, hmem⟩ := spawned_of_newest hn
    obtain ⟨t', ht', hc'⟩ := hr.spawned (hsuffix.subset (List.mem_cons_of_mem _ hmem))
    cases ht.symm.trans ht'
    exact hc ▸ hc' ▸ hn
  case superseded =>
    intro id t s ht hc hn
    rcases World.Ruled.publish_cases w id t s with ⟨slot, hslot, hg, -⟩ | ⟨-, hp⟩
    · exact absurd (hr.newest.2 ⟨t, slot, ht, hc, hc ▸ hslot, hg⟩) hn
    · exact hp
  case order => exact fun before s after hs => hr.rightful.statuses hs
  case active =>
    intro hact
    obtain ⟨slot, hslot, hslota⟩ := Option.map_eq_some_iff.1 hact
    obtain ⟨id, hn⟩ := (hr.slot hslot).2
    have hl := hr.newest.1 hn
    have hlead := hl
    obtain ⟨t, -, ht, hc, -⟩ := hlead
    have hst := Streamed.of_reachable hf
    have hsuits := hr.suits hl ht hslot
    rw [hslota] at hsuits
    obtain ⟨hphase, hwarm⟩ := ((hst.recorded hw).fits id t ht).follows.of_active hsuits
    obtain ⟨stream, hstream⟩ := hsuits.stream
    obtain ⟨since, s, start, past, htrace, hopened, hfirst, -, hfull⟩ :=
      ((hst.recorded hw).laws id t ht).underway hphase
    cases (hr.stream ht hstream).symm.trans hopened
    refine ⟨id, t, stream, start, since, past, hl, ht, hstream, ?_, htrace, fun l hmem => ?_⟩
    · rw [store_of_world? hw, ← hc, ((hst.tapped hw ht).stands stream hstream).2]
      rfl
    · have hvisit : (l, Hook.sync) ∈ (attempt (setups i) t.cluster id w.trace).first := by
        rw [hfirst, hc]
        exact List.mem_map.2 ⟨l, hmem, rfl⟩
      obtain ⟨fault, hb, hret⟩ := hfull hwarm _ hvisit
      cases fault with
      | none => exact hret
      | some f => cases hb
  case takes => exact fun who name guarded id v p hh h hv => World.detach_takes hh h hv
  case joins => exact fun who id v p h => World.joining_ends h
  case lasting => exact fun id t m w' ht hend hm => World.ended_of_move hm ht hend
  case left =>
    intro id l later past htrace hlater hend
    have hrightful := hr.rightful
    rw [htrace] at hrightful
    have hcancel := hrightful.of_suffix (List.suffix_append _ _)
    obtain ⟨c', l', before, heq, hn⟩ := hcancel
    cases heq
    have hnew : newest c w.trace = some id := by
      rw [htrace, newest_of_later hrightful hlater (by simp)]
      exact hn
    obtain ⟨t, slot, ht, hc, hslot, hg⟩ := hr.newest.1 hnew
    have hslots := (hr.slot hslot).1
    have hterm := hr.suits ⟨t, slot, ht, hc, hslot, hg⟩ ht hslot
    rw [Task.isEnded_iff.1 (by simpa [World.hasEnded, ht] using hend)] at hterm
    have hstat : w.status? c = some slot.status := by rw [World.status?, hslot]; rfl
    cases hs : slot.status with
    | stopped => exact .inl (hstat.trans (by rw [hs]))
    | failed =>
      refine .inr ⟨hstat.trans (by rw [hs]), ?_⟩
      rw [hs] at hslots
      have hmem := published_of_statuses hslots hnew (by simp)
      -- It was written before the task was cancelled, for a cancelled task does not fail.
      rw [htrace] at hmem
      rcases List.mem_append.1 hmem with hmem | hmem
      · obtain ⟨newer, older, rfl⟩ := List.append_of_mem hmem
        have hsuffix : .published id .failed :: (older ++ .cancelled id :: .detached c l :: past) <:+
            newer ++ .published id .failed :: older ++ .cancelled id :: .detached c l :: past :=
          ⟨newer, by simp⟩
        have hwrote : Mark.Rightful _ (.published id .failed) := hrightful.of_suffix hsuffix
        exact absurd (by simp) (hwrote.2.1 rfl)
      · simpa using hmem
    | _ =>
      rw [hs] at hterm
      cases hterm

/-- A listener leaves and another one comes; the new task becomes active, and then the old one
stops. -/
theorem status_life_cycle_superseded : ∃ f w, Reachable (fun _ => .plain "me@here") f ∧
    f.world? 0 = some w ∧ w.hasEnded 0 = true ∧ statuses "c" w.trace = [.active, .starting] ∧
    w.Lifecycle (.plain "me@here") "c" := by
  obtain ⟨f, w, hf, hw, hp⟩ := exists_of_run (fun _ => .plain "me@here") .usual 1 0
    ((0, .ask 0 (.attach "c" "l")) :: List.replicate 4 (0, .step (.task 0)) ++
      [(0, .ask 1 (.detach "c" "l" false)), (0, .ask 2 (.attach "c" "k"))] ++
      List.replicate 4 (0, .step (.task 1)) ++ [(0, .step (.task 0)), (0, .step (.call 1))])
    (fun w => w.hasEnded 0 && statuses "c" w.trace == [.active, .starting]) rfl (by decide +kernel)
  simp only [Bool.and_eq_true, beq_iff_eq] at hp
  exact ⟨f, w, hf, hw, hp.1, hp.2, status_life_cycle hf hw "c"⟩

end Fleet

end Muster
