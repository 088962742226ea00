import Muster.Proofs.Authors
import Muster.Proofs.CellQueues
import Muster.Proofs.Updaters

/-!
# One load at a time

Many look a cluster up at once, and one of them loads it (`SingleFlight`). The others wait without a
command of their own; a load that succeeds serves them all, one that fails is taken over by the first
of them. A cluster that was loaded is served from its cache, and its updater keeps a task for it
(`World.Cached`).
-/
namespace Muster

theorem Position.eq_of_stage? {p : Position} {stage : Stage} (h : p.stage? = some stage) :
    ∃ s pass l name label more fault rest,
      p = .calling s pass l (.awaiting name label stage more fault) rest := by
  unfold Position.stage? at h
  split at h
  · cases h
    exact ⟨_, _, _, _, _, _, _, _, rfl⟩
  · cases h

namespace World

variable {setup : Setup} {w v w' : World} {m : Move} {who : Actor} {p : Progress} {stage : Stage}
  {load : Load} {a : Answer} {c : String} {f : Fault}

/-! ## Steps of a lookup -/

/-- An actor whose call is not given up takes it on with a step. -/
theorem step_resumes (setup : Setup) (hst : w.stage? who = some stage)
    (hd : w.dropped? (.step who) ≠ some who) :
    ∃ settle, w.move setup (.step who) = (w.resume setup who stage).map settle ∧
      ∀ v p, w.resume setup who stage = some (v, p) → Settled who p v (settle (v, p)) := by
  cases who with
  | call call =>
    have hst : w.calls.get? call = some stage := hst
    refine ⟨fun r => r.1.settleCall call r.2, ?_, fun v p _ => settleCall_settled v call p⟩
    simp [move, step, stepCall, hst]
  | task id =>
    obtain ⟨t, ht, hst⟩ := Option.bind_eq_some_iff.1 hst
    obtain ⟨s, pass, l, name, label, more, fault, rest, hpos⟩ := Position.eq_of_stage? hst
    have he : t.isEnded = false := by simp [Task.isEnded, hpos]
    have hcan : t.cancelled = false := by
      refine Decidable.byContradiction fun h => hd ?_
      simp [dropped?, ht, he, h]
    refine ⟨fun r => r.1.settleAction id s pass l rest name label more fault r.2, ?_,
      fun v p hr => ?_⟩
    · simp [move, step, ht, stepTask, he, hcan, advanceTask, hpos, resumeCallback]
    · obtain ⟨t', ht', he'⟩ := (resume_edits hr).standing ht he
      exact settleAction_settled ht' he' p

theorem settled_of_step (hst : w.stage? who = some stage) (hd : w.dropped? (.step who) ≠ some who)
    (hr : w.resume setup who stage = some (v, p)) (hm : w.move setup (.step who) = some w') :
    Settled who p v w' := by
  obtain ⟨settle, hstep, hset⟩ := step_resumes setup hst hd
  rw [hm, hr] at hstep
  exact Option.some.inj hstep ▸ hset v p hr

theorem Settled.unsigned (h : Settled who p v w') :
    ∃ ms, w'.trace = ms ++ v.trace ∧ ∀ m ∈ ms, m.author? = none := by
  obtain ⟨ms, htrace, hms⟩ := h.trace
  refine ⟨ms, htrace, fun m hmem => ?_⟩
  obtain ⟨haside, hcommand⟩ := hms m hmem
  cases m with
  | stored a call fault => exact absurd rfl (hcommand a call fault)
  | _ => first | rfl | cases haside

theorem resume_queued (w : World) (who : Actor) (load : Load) :
    w.resume setup who (.queued load) =
      if w.cell load.cluster = .loaded then some (w, .finished (w.loadedAnswer load))
      else if (w.cell load.cluster).owner? = some who then some (w, .paused (.reading load .arriving))
      else none := by
  cases hc : w.cell load.cluster <;>
    simp [resume, show (w.caches.entry load.cluster).cell = _ from hc, Cell.owner?]

/-- Whoever waits in line sends no command. -/
theorem waiting_unsigned (hp : w.post? who = some (.waits c))
    (hm : w.move setup (.step who) = some w') :
    ∃ ms, w'.trace = ms ++ w.trace ∧ ∀ m ∈ ms, m.author? = none := by
  obtain ⟨stage, hst, hpost⟩ := Option.bind_eq_some_iff.1 hp
  by_cases hd : w.dropped? (.step who) = some who
  · -- A cancelled task gives the call of its listener up.
    cases who with
    | call call => cases hd
    | task id =>
      obtain ⟨t, ht, hm⟩ := Option.bind_eq_some_iff.1 hm
      have hstop : t.isEnded = false ∧ t.cancelled = true := by
        simpa [dropped?, ht, and_comm] using hd
      simp only [stepTask, hstop, Bool.false_eq_true, if_false, if_true, Option.some.injEq] at hm
      obtain ⟨ms, htrace, hms⟩ := @stopTask_signed none w id t
      exact ⟨ms, hm ▸ htrace, fun m hmem => or_self_iff.1 (hms m hmem).2⟩
  · obtain ⟨settle, hstep, hset⟩ := step_resumes setup hst hd
    obtain ⟨⟨v, p⟩, hr, rfl⟩ := Option.map_eq_some_iff.1 (hstep.symm.trans hm)
    cases stage with
    | queued load =>
      have hsame : v = w := by
        rw [resume_queued] at hr
        split at hr
        · cases hr
          rfl
        · split at hr <;> cases hr
          rfl
      exact hsame ▸ (hset v p hr).unsigned
    | _ => cases hpost

/-! ## What a lookup answers -/

/-- A lookup succeeds with what the cache holds. A view is stale unless the cluster is active. -/
structure Yields (w : World) (load : Load) (a : Answer) : Prop where
  answer : a = w.loadedAnswer load
  ok : ∀ f, a ≠ .failed f
  stale : ∀ x, a = .view x → (x.stale = true ↔ w.status? load.cluster ≠ some .active)

theorem loadedAnswer_yields (w : World) (load : Load) : w.Yields load (w.loadedAnswer load) := by
  refine ⟨rfl, fun f => ?_, fun x h => ?_⟩ <;> unfold loadedAnswer at * <;> dsimp only at *
  · split <;> simp
  · split at h
    · cases h
      show (!((w.status? load.cluster).getD .stopped).isLive) = true ↔ _
      cases w.status? load.cluster with
      | none => simp [Status.isLive]
      | some s => cases s <;> simp [Status.isLive]
    · cases h

/-- Nothing comes of a lookup that fails when it begins. -/
theorem beginLoad_refused {key : String} {view : Bool}
    (h : w.beginLoad setup who key view = (v, .finished (.failed f))) :
    v.store = w.store ∧ v.trace = w.trace ∧ Aside w v := by
  unfold beginLoad at h
  split at h
  · cases h
    exact ⟨rfl, rfl, .refl w⟩
  · dsimp only at h
    split at h
    · cases h
      exact ⟨rfl, rfl, .count w .lookups⟩
    · split at h
      · exact absurd (Progress.finished.inj (congrArg Prod.snd h)) ((loadedAnswer_yields _ _).ok f)
      · split at h <;> cases h
      · cases h

theorem loadedAnswer_congr (hc : v.caches = w.caches) (hs : v.slots = w.slots) (load : Load) :
    v.loadedAnswer load = w.loadedAnswer load := by
  simp only [loadedAnswer, status?, hc, hs]

theorem Proceeds.fails (h : Proceeds who load stage w v (.finished (.failed f))) :
    stage.post? = some (.loads load.cluster) ∧ (∀ seen, stage ≠ .starting load seen) ∧
    v.cell load.cluster = (w.cell load.cluster).handOver ∧ Aside w v := by
  generalize hp : Progress.finished (.failed f) = p at h
  cases h with
  | on => cases hp
  | served => exact absurd (Progress.finished.inj hp).symm ((loadedAnswer_yields w load).ok f)
  | failed hpost hs hc _ ha => exact ⟨hpost, hs, hc, ha⟩
  | loaded => exact absurd (Progress.finished.inj hp).symm ((loadedAnswer_yields v load).ok f)

theorem Proceeds.succeeds (h : Proceeds who load stage w v (.finished a)) (ha : ∀ f, a ≠ .failed f) :
    a = v.loadedAnswer load ∧ v.cell load.cluster = .loaded := by
  cases h with
  | served _ hc hv =>
    subst hv
    exact ⟨rfl, hc⟩
  | failed => exact absurd rfl (ha _)
  | loaded _ hc => exact ⟨rfl, hc⟩

/-- A load that has not refilled the cache yet finds no updater attached to the cluster. -/
theorem Enrolled.none_enlisted (h : w.Enrolled) (hk : w.Kept) (hst : w.stage? who = some stage)
    (hload : stage.load? = some load) (hp : stage.post? = some (.loads load.cluster))
    (hs : ∀ seen, stage ≠ .starting load seen) :
    enlisted load.cluster w.trace = 0 := by
  have howner : (w.cell load.cluster).owner? = some who := hk.loads (by rw [post?, hst]; exact hp)
  refine Decidable.byContradiction fun hpos => ?_
  rcases (h load.cluster).2 hpos with hl | ⟨who', hstart⟩
  · exact Cell.not_loaded_of_owner howner hl
  · -- Whoever waits for the first attempt owns the cell, too.
    cases howner.symm.trans (hk.owner who' _ _ hstart rfl)
    rw [intent?_eq, hst] at hstart
    cases stage with
    | starting load' seen =>
      cases hload
      exact hs seen rfl
    | _ => cases hstart

/-- Where no updater was attached, tasks were started for users. -/
theorem Ruled.spawned_for_user {id g : Nat} {past : List Mark} (h : Ruled w)
    (hnone : enlisted c w.trace = 0) (hs : .spawned id c g :: past <:+ w.trace) :
    ∃ name before, past = .attached c (.user name) false :: before := by
  obtain ⟨l, before, rfl⟩ : Mark.Rightful past (.spawned id c g) := h.rightful.of_suffix hs
  cases l with
  | user name => exact ⟨name, before, rfl⟩
  | updater c' n =>
    have hmem : .attached c (.updater c' n) false ∈ w.trace := hs.subset (by simp)
    exact absurd (by simp [Mark.enlists, Listener.isUpdater])
      (List.countP_eq_zero.1 hnone _ hmem)

/-! ## Loaded clusters -/

/-- What users detach leaves a cluster with an updater its task. -/
theorem detach_spares (hs : Supervised w) (h : w.Served c) (c' name : String) :
    (w.detach c' (.user name)).2.2.handles.get? c = w.handles.get? c ∧
    ∀ (id : Nat) (t : Task), w.tasks[id]? = some t → t.cluster = c →
      (w.detach c' (.user name)).2.2.tasks[id]? = some t := by
  have stays : ∀ {u : World}, u.handles = w.handles → u.tasks = w.tasks →
      u.handles.get? c = w.handles.get? c ∧
      ∀ (id : Nat) (t : Task), w.tasks[id]? = some t → t.cluster = c → u.tasks[id]? = some t := by
    intro u hh ht
    rw [hh, ht]
    exact ⟨rfl, fun _ _ h _ => h⟩
  unfold detach
  split
  · exact stays rfl rfl
  · next listeners hr =>
    -- The cluster whose last listener left is another one.
    have hne : c' ≠ c := by
      rintro rfl
      obtain ⟨u, hu, hupdater⟩ := h
      by_cases hmem : Listener.user name ∈ w.listeners.of c'
      · have hleft := Listeners.remove_fst hmem
        rw [hr] at hleft
        have hnil : (w.listeners.of c').erase (.user name) = [] :=
          List.length_eq_zero_iff.1 (Option.some.inj hleft).symm
        have hkept : u ∈ (w.listeners.of c').erase (.user name) :=
          (List.mem_erase_of_ne (by rintro rfl; cases hupdater)).2 hu
        rw [hnil] at hkept
        cases hkept
      · rw [Listeners.remove_of_not_mem hmem] at hr
        cases hr
    dsimp only
    split
    · exact ⟨by simp [note, hne], fun _ _ h _ => h⟩
    · next id hh =>
      refine ⟨by simp [note, cancel, updateTask, hne], fun j t ht hc => ?_⟩
      obtain ⟨ch, s, hch, hcluster, -⟩ := hs.handle hh
      have hj : id ≠ j := by
        rintro rfl
        rw [charge?_of_task ht] at hch
        cases hch
        exact hne (hcluster.symm.trans hc)
      simpa [note, cancel, updateTask, hj] using ht
  · exact stays rfl rfl

/-- What holds of a cluster that was loaded. -/
structure Cached (setup : Setup) (w : World) (c : String) : Prop where
  /-- Nobody loads it. -/
  idle : ∀ who, w.post? who ≠ some (.loads c)
  /-- Until a shutdown a lookup succeeds at once, without a command. -/
  answers : w.closed = false → ∀ who key view, setup.source.cluster? key = some c →
    ∃ v a, w.beginLoad setup who key view = (v, .finished a) ∧ v.Yields ⟨c, view⟩ a ∧
      v.store = w.store ∧ v.trace = w.trace ∧ Aside w v
  /-- Until a shutdown it has a task that is not cancelled. -/
  tended : w.closed = false → ∃ (id : Nat) (t : Task), w.handles.get? c = some id ∧
    w.tasks[id]? = some t ∧ t.cluster = c ∧ t.cancelled = false
  /-- A user that unsubscribes leaves it its task, just as it is. -/
  spared : ∀ who c' name guarded v p, w.begin setup who (.detach c' name guarded) = (v, p) →
    v.handles.get? c = w.handles.get? c ∧ ∀ (id : Nat) (t : Task), w.tasks[id]? = some t →
      t.cluster = c → v.tasks[id]? = some t

theorem cached_of_loaded (hs : Supervised w) (hk : w.Kept) (hc : w.cell c = .loaded) :
    w.Cached setup c where
  idle who hp := Cell.not_loaded_of_owner (hk.loads hp) hc
  answers hopen who key view hkey := by
    have hnew : (w.cell c).owner? ≠ some who := fun ho => Cell.not_loaded_of_owner ho hc
    rcases hb : w.beginLoad setup who key view with ⟨v, p⟩
    obtain ⟨henters, haside, hstore, htrace, -⟩ := beginLoad_enters hopen hkey hnew hb
    cases henters with
    | served => exact ⟨v, _, rfl, loadedAnswer_yields v _, hstore, htrace, haside⟩
    | first hempty => cases hempty.symm.trans hc
    | behind hloading => cases hloading.symm.trans hc
  tended hopen := by
    obtain ⟨u, hu, -⟩ := hk.loaded c hc
    obtain ⟨id, hh⟩ := Option.isSome_iff_exists.1
      ((hs.listened hopen c).2 (List.ne_nil_of_mem hu))
    obtain ⟨ch, s, hch, hcluster, hcan, -⟩ := hs.handle hh
    obtain ⟨t, ht, rfl⟩ := Option.map_eq_some_iff.1 hch
    exact ⟨id, t, hh, ht, hcluster, hcan⟩
  spared who c' name guarded v p hb := by
    have hspares := detach_spares hs (hk.loaded c hc) c' name
    simp only [begin, beginDetach] at hb
    split at hb
    · cases hb
      exact ⟨rfl, fun _ _ h _ => h⟩
    · split at hb <;> next hd =>
        cases hb
        rwa [hd] at hspares

end World

namespace Fleet

variable {setups : Nat → Setup} {f g : Fleet} {i : Nat} {w v : World} {who : Actor} {c : String}

/-! ## Those who wait -/

/-- The states that moves lead to while an actor of a client waits for a cluster. -/
def Waiting (setups : Nat → Setup) (i : Nat) (who : Actor) (c : String) : Fleet → Fleet → Prop :=
  Guarded setups fun _ _ f _ => ∀ w ∈ f.world? i, w.post? who = some (.waits c)

/-- Whoever waits sends no command, calls no listener and does not look at a stream. -/
theorem Waiting.quiet (hr : Waiting setups i who c f g) (hw : f.world? i = some w)
    (hv : g.world? i = some v) :
    ∃ ms, v.trace = ms ++ w.trace ∧ ∀ m ∈ ms, m.author? ≠ some who := by
  induction hr generalizing v with
  | refl =>
    cases hw.symm.trans hv
    exact ⟨[], rfl, by simp⟩
  | @move g h j m past next hwaits ih =>
    obtain ⟨u, u', hu, hm, -, hj, hothers⟩ := move_cases next
    by_cases hji : j = i
    · subst hji
      cases hj.symm.trans hv
      obtain ⟨ms, htrace, hms⟩ := ih hu
      -- A step of its own signs nothing, and what others do it does not sign.
      have step : ∃ new, v.trace = new ++ u.trace ∧ ∀ m ∈ new, m.author? ≠ some who := by
        by_cases hown : m = .step who
        · obtain ⟨new, hnew, hnobody⟩ := World.waiting_unsigned (hwaits u hu) (hown ▸ hm)
          exact ⟨new, hnew, fun mark hmark hauthor => by
            cases (hnobody mark hmark).symm.trans hauthor⟩
        · obtain ⟨new, hnew, hauthors⟩ := World.move_author hm
          exact ⟨new, hnew, fun mark hmark hauthor => hown (hauthors mark hmark who hauthor).1⟩
      obtain ⟨new, hnew, hauthors⟩ := step
      refine ⟨new ++ ms, by simp [hnew, htrace], fun mark hmark => ?_⟩
      exact (List.mem_append.1 hmark).elim (hauthors mark) (hms mark)
    · rw [hothers i hji] at hv
      obtain ⟨x, hx, rfl⟩ := Option.map_eq_some_iff.1 hv
      obtain ⟨ms, htrace, hms⟩ := ih hx
      exact ⟨ms, htrace, hms⟩

/-- Whoever owns a cell owns it as long as it waits. -/
theorem Waiting.owner (hr : Waiting setups i who c f g) (hf : Reachable setups f)
    (hw : f.world? i = some w) (ho : (w.cell c).owner? = some who) (hv : g.world? i = some v)
    (hp : v.post? who = some (.waits c)) : (v.cell c).owner? = some who := by
  induction hr generalizing v with
  | refl =>
    cases hw.symm.trans hv
    exact ho
  | @move g h j m past next hwaits ih =>
    obtain ⟨u, u', hu, hm, -, hj, hothers⟩ := move_cases next
    by_cases hji : j = i
    · subst hji
      cases hj.symm.trans hv
      have hreach := hf.reaches past.reaches
      obtain ⟨hkept, hproper⟩ := kept_of_reachable hreach hu
      exact World.owner_of_move (lined_of_reachable hreach hu) (.of_reachable hreach hu) hproper hkept
        hm (ih hu (hwaits u hu)) hp
    · rw [hothers i hji] at hv
      obtain ⟨x, hx, rfl⟩ := Option.map_eq_some_iff.1 hv
      have hkept : (x.cell c).owner? = some who := ih hx (hwaits x hx)
      exact hkept

/-- A load that fails leaves the cell empty, or to one of those who wait. -/
theorem handsOver_of_failed {stage : Stage} {load : Load} {u : World} {fault : Fault}
    (hf : Reachable setups f) (hw : f.world? i = some w) (hst : w.stage? who = some stage)
    (hload : stage.load? = some load) (hd : w.dropped? (.step who) ≠ some who)
    (hr : w.resume (setups i) who stage = some (u, .finished (.failed fault)))
    (next : f.move setups i (.step who) = some g) (hv : g.world? i = some v) :
    (v.cell load.cluster = .empty ∧ ∀ x, v.post? x ≠ some (.waits load.cluster)) ∨
    ∃ n, v.post? n = some (.waits load.cluster) ∧ (v.cell load.cluster).owner? = some n := by
  obtain ⟨x, v', hx, hm, -, hi, -⟩ := move_cases next
  cases hw.symm.trans hx
  cases hv.symm.trans hi
  have hset := World.settled_of_step hst hd hr hm
  have hsup : w.Supervised := .of_reachable hf hw
  have hlined := lined_of_reachable hf hw
  obtain ⟨hpost, -, hc, -⟩ := (World.resume_proceeds hsup hload hr).fails
  have ho : (w.cell load.cluster).owner? = some who :=
    (kept_of_reachable hf hw).1.loads (by rw [World.post?, hst]; exact hpost)
  have hcell : v.cell load.cluster = (w.cell load.cluster).handOver := by
    rw [World.cell, hset.caches]
    exact hc
  have hnodup := hlined.nodup load.cluster
  cases hwcell : w.cell load.cluster with
  | loading o line =>
    rw [hwcell] at ho hcell hnodup
    cases ho
    cases line with
    | nil =>
      refine .inl ⟨hcell, fun x hx => ?_⟩
      have hwaits := (lined_of_reachable (hf.reaches (.move .refl next)) hv).waits hx
      simp [hcell, Cell.handOver, Cell.party] at hwaits
    | cons n rest =>
      -- The first in line owns the cell now and has not noticed yet.
      refine .inr ⟨n, ?_, by rw [hcell]; rfl⟩
      have hne : who ≠ n := fun heq => (List.nodup_cons.1 hnodup).1 (heq ▸ List.mem_cons_self)
      rw [World.post?, hset.others n hne, World.resume_stages hsup hr n]
      exact hlined.line (by rw [hwcell]; exact List.mem_cons_self)
  | _ =>
    rw [hwcell] at ho
    cases ho

/-- While the owner of a cell waits, nobody loads the cluster, and nobody else starts to. -/
theorem turn_of_owner {next : Actor} (hf : Reachable setups f) (hw : f.world? i = some w)
    (ho : (w.cell c).owner? = some next) (hp : w.post? next = some (.waits c)) :
    (∀ x, w.post? x ≠ some (.loads c)) ∧
    ∀ x load, w.stage? x = some (.queued load) → load.cluster = c →
      w.resume (setups i) x (.queued load) =
        if x = next then some (w, .paused (.reading load .arriving)) else none := by
  refine ⟨fun x hl => ?_, fun x load _ hc => ?_⟩
  · cases ho.symm.trans ((kept_of_reachable hf hw).1.loads hl)
    cases hp.symm.trans hl
  · subst hc
    rw [World.resume_queued, if_neg (Cell.not_loaded_of_owner ho), ho]
    simp only [Option.some.injEq, eq_comm]

/-! ## Main result -/

/-- What happens to lookups of a client. -/
structure SingleFlight (setups : Nat → Setup) (f : Fleet) (i : Nat) (w : World) : Prop where
  /-- One at a time loads a cluster. -/
  alone : ∀ c who who', w.post? who = some (.loads c) → w.post? who' = some (.loads c) → who = who'
  /-- A lookup begins without a command: it is served, it waits, or it is the first. -/
  begins : ∀ who key view c v p, w.closed = false → (setups i).source.cluster? key = some c →
    w.stage? who = none → w.beginLoad (setups i) who key view = (v, p) →
    World.Enters who ⟨c, view⟩ w v p ∧ v.store = w.store ∧ v.trace = w.trace ∧ World.Aside w v
  /-- Unless it is given up, a step takes it on. -/
  steps : ∀ who stage, w.stage? who = some stage → w.dropped? (.step who) ≠ some who →
    ∃ settle, w.move (setups i) (.step who) = (w.resume (setups i) who stage).map settle ∧
      ∀ v p, w.resume (setups i) who stage = some (v, p) → World.Settled who p v (settle (v, p))
  /-- Whoever waits sends no command meanwhile. -/
  quiet : ∀ who c g v, Waiting setups i who c f g → g.world? i = some v →
    ∃ ms, v.trace = ms ++ w.trace ∧ ∀ m ∈ ms, m.author? ≠ some who
  /-- Those who wait are served when the cluster is loaded, and one of them loads it when its turn has
  come. -/
  waits : ∀ who load, w.stage? who = some (.queued load) →
    (w.cell load.cluster = .loaded → ∃ a,
      w.resume (setups i) who (.queued load) = some (w, .finished a) ∧ w.Yields load a) ∧
    (w.cell load.cluster ≠ .loaded → w.resume (setups i) who (.queued load) =
      if (w.cell load.cluster).owner? = some who then some (w, .paused (.reading load .arriving))
      else none)
  /-- A lookup that fails when it begins has done nothing. -/
  refused : ∀ who key view v fault,
    w.beginLoad (setups i) who key view = (v, .finished (.failed fault)) →
    v.store = w.store ∧ v.trace = w.trace ∧ World.Aside w v
  /-- One that fails later has attached no updater, and no task was started for one. -/
  fails : ∀ who stage load v fault, w.stage? who = some stage → stage.load? = some load →
    w.resume (setups i) who stage = some (v, .finished (.failed fault)) →
    World.Aside w v ∧ enlisted load.cluster w.trace = 0 ∧
    ∀ id gen past, .spawned id load.cluster gen :: past <:+ w.trace →
      ∃ name before, past = .attached load.cluster (.user name) false :: before
  /-- Then nobody is left, or one of those who wait is the next to load the cluster. -/
  handsOver : ∀ who stage load u fault g v, w.stage? who = some stage → stage.load? = some load →
    w.dropped? (.step who) ≠ some who →
    w.resume (setups i) who stage = some (u, .finished (.failed fault)) →
    f.move setups i (.step who) = some g → g.world? i = some v →
    (v.cell load.cluster = .empty ∧ ∀ x, v.post? x ≠ some (.waits load.cluster)) ∨
    ∃ next, v.post? next = some (.waits load.cluster) ∧
      ∀ h u, Waiting setups i next load.cluster g h → h.world? i = some u →
        u.post? next = some (.waits load.cluster) →
        (∀ x, u.post? x ≠ some (.loads load.cluster)) ∧
        ∀ x load', u.stage? x = some (.queued load') → load'.cluster = load.cluster →
          u.resume (setups i) x (.queued load') =
            if x = next then some (u, .paused (.reading load' .arriving)) else none
  /-- One that succeeds leaves the cluster loaded. -/
  succeeds : ∀ who stage load u a g v, w.stage? who = some stage → stage.load? = some load →
    w.dropped? (.step who) ≠ some who → w.resume (setups i) who stage = some (u, .finished a) →
    (∀ fault, a ≠ .failed fault) → f.move setups i (.step who) = some g → g.world? i = some v →
    v.Yields load a ∧ v.cell load.cluster = .loaded
  /-- From then on it is served from the cache. -/
  cached : ∀ c, w.cell c = .loaded → ∀ g v, Reaches setups f g → g.world? i = some v →
    v.cell c = .loaded ∧ v.Cached (setups i) c

/-- As long as a client never gives up a load between attaching the updater and the outcome of the
first attempt, one lookup at a time loads a cluster, a load that fails is handed over, and one that
succeeds serves all lookups from then on. -/
theorem single_flight {store : Memory} {n : Nat} (hs : store.channels.entries = [])
    (hp : Patient setups i (start store n) f) (hw : f.world? i = some w) :
    SingleFlight setups f i w := by
  have hreach : Reachable setups f := ⟨store, n, hs, hp.reaches⟩
  have hsup : w.Supervised := .of_reachable hreach hw
  obtain ⟨hkept, hproper⟩ := kept_of_reachable hreach hw
  constructor
  case alone =>
    intro c who who' hl hl'
    exact Option.some.inj ((hkept.loads hl).symm.trans (hkept.loads hl'))
  case begins =>
    intro who key view c v p hopen hkey hnone hb
    have hnew : (w.cell c).owner? ≠ some who := by
      intro ho
      have hpost : w.post? who = none := by rw [World.post?, hnone]; rfl
      rcases (lined_of_reachable hreach hw).owner ho with h | h <;> cases hpost.symm.trans h
    obtain ⟨henters, haside, hstore, htrace, -⟩ := World.beginLoad_enters hopen hkey hnew hb
    exact ⟨henters, hstore, htrace, haside⟩
  case steps => exact fun who stage hst hd => World.step_resumes (setups i) hst hd
  case quiet => exact fun who c g v hr hv => hr.quiet hw hv
  case waits =>
    intro who load _
    rw [World.resume_queued]
    refine ⟨fun hc => ?_, fun hc => if_neg hc⟩
    rw [if_pos hc]
    exact ⟨_, rfl, World.loadedAnswer_yields w load⟩
  case refused => exact fun who key view v fault hb => World.beginLoad_refused hb
  case fails =>
    intro who stage load v fault hst hload hr
    obtain ⟨hpost, hstart, -, haside⟩ := (World.resume_proceeds hsup hload hr).fails
    have hnone := (metered_of_patient hs hp hw).1.none_enlisted hkept hst hload hpost hstart
    exact ⟨haside, hnone, fun id gen past hsuffix =>
      (World.Ruled.of_reachable hreach hw).spawned_for_user hnone hsuffix⟩
  case handsOver =>
    intro who stage load u fault g v hst hload hd hr next hv
    refine (handsOver_of_failed hreach hw hst hload hd hr next hv).imp_right ?_
    rintro ⟨n, hpost, ho⟩
    have hreach' := hreach.reaches (.move .refl next)
    exact ⟨n, hpost, fun h x hwaiting hx hstays => turn_of_owner
      (hreach'.reaches hwaiting.reaches) hx (hwaiting.owner hreach' hv ho hx hstays) hstays⟩
  case succeeds =>
    intro who stage load u a g v hst hload hd hr ha next hv
    obtain ⟨x, v', hx, hm, -, hi, -⟩ := move_cases next
    cases hw.symm.trans hx
    cases hv.symm.trans hi
    have hset := World.settled_of_step hst hd hr hm
    obtain ⟨rfl, hc⟩ := (World.resume_proceeds hsup hload hr).succeeds ha
    rw [← World.loadedAnswer_congr hset.caches hset.slots load]
    exact ⟨World.loadedAnswer_yields v load, by rw [World.cell, hset.caches]; exact hc⟩
  case cached =>
    intro c hc g v hr hv
    have hcell := hr.loaded hreach hw hc hv
    have hlater := hreach.reaches hr
    have hsupervised : v.Supervised := .of_reachable hlater hv
    exact ⟨hcell, World.cached_of_loaded hsupervised (kept_of_reachable hlater hv).1 hcell⟩

/-- Three look a cluster up. The load of the first fails, the second takes it over, and what it loads
serves the third and all who come. -/
theorem single_flight_takeover : ∃ f w g v h x,
    Patient (fun _ => .mapped "me@here" "c") 0 (start .usual 1) f ∧ f.world? 0 = some w ∧
    w.cell "c" = .loading (.call 0) [.call 1, .call 2] ∧
    (∀ who, w.post? who = some (.loads "c") → who = .call 0) ∧ enlisted "c" w.trace = 0 ∧
    f.move (fun _ => .mapped "me@here" "c") 0 (.step (.call 0)) = some g ∧ g.world? 0 = some v ∧
    (∃ next, v.post? next = some (.waits "c") ∧ (∀ x, v.post? x ≠ some (.loads "c")) ∧
      v.resume (.mapped "me@here" "c") (.call 2) (.queued ⟨"c", false⟩) =
        if .call 2 = next then some (v, .paused (.reading ⟨"c", false⟩ .arriving)) else none) ∧
    Patient (fun _ => .mapped "me@here" "c") 0 g h ∧ h.world? 0 = some x ∧
    (∃ a, x.resume (.mapped "me@here" "c") (.call 2) (.queued ⟨"c", false⟩) =
      some (x, .finished a) ∧ x.Yields ⟨"c", false⟩ a) ∧
    x.Cached (.mapped "me@here" "c") "c" := by
  obtain ⟨f, hf, hp⟩ := (Option.any_eq_true _ _).1 (show
    ((start .usual 1).runPatient (fun _ => .mapped "me@here" "c") 0
      ((0, .ask 3 (.inject .readFields 1 .redis)) ::
        [0, 1, 2].map fun call => (0, .ask call (.lookup "k")))).any (fun f =>
      (f.world? 0).any fun w =>
        w.cell "c" == .loading (.call 0) [.call 1, .call 2] &&
        w.stage? (.call 0) == some (.reading ⟨"c", false⟩ .arriving) &&
        (w.resume (.mapped "me@here" "c") (.call 0) (.reading ⟨"c", false⟩ .arriving)).any
          (fun r => r.2 == .finished (.failed .redis)) &&
        (f.move (fun _ => .mapped "me@here" "c") 0 (.step (.call 0))).any fun g =>
          (g.world? 0).any (fun v => v.cell "c" == .loading (.call 1) [.call 2] &&
            v.stage? (.call 2) == some (.queued ⟨"c", false⟩)) &&
          (g.runPatient (fun _ => .mapped "me@here" "c") 0
            (List.replicate 3 (0, .step (.call 1)) ++ List.replicate 5 (0, .step (.task 0)) ++
              [(0, .step (.call 1))])).any fun h =>
            (h.world? 0).any fun x => x.cell "c" == .loaded &&
              x.stage? (.call 2) == some (.queued ⟨"c", false⟩)) = true by decide +kernel)
  simp only [Option.any_eq_true, Bool.and_eq_true, beq_iff_eq] at hp
  obtain ⟨w, hw, ⟨⟨hcell, hstage⟩, ⟨u, p⟩, hr, rfl⟩, g, next, ⟨v, hv, hline, hqueued⟩, h, hh, x, hx,
    hloaded, hwaits⟩ := hp
  have hpatient := patient_of_run hf
  have hlater := patient_of_run hh
  have hstep := hpatient.move next fun _ _ _ hasty => by
    obtain ⟨who, c, hd, -⟩ := hasty
    cases hd
  have hfirst := single_flight rfl hpatient hw
  have hlast := single_flight rfl (hstep.trans hlater) hx
  obtain ⟨-, hnone, -⟩ := hfirst.fails _ _ _ _ _ hstage rfl hr
  refine ⟨f, w, g, v, h, x, hpatient, hw, hcell, fun who hwho => ?_, hnone, next, hv, ?_, hlater,
    hx, (hlast.waits _ _ hwaits).1 hloaded, (hlast.cached _ hloaded h x .refl hx).2⟩
  · exact hfirst.alone "c" who (.call 0) hwho (by rw [World.post?, hstage]; rfl)
  · rcases hfirst.handsOver _ _ _ _ _ _ _ hstage rfl (by simp [World.dropped?]) hr next hv with
      ⟨hempty, -⟩ | ⟨n, hn, hturn⟩
    · rw [show v.cell "c" = .empty from hempty] at hline
      cases hline
    · obtain ⟨hnobody, hstarts⟩ := hturn g v .refl hv hn
      exact ⟨n, hn, hnobody, hstarts _ _ hqueued rfl⟩

end Fleet

end Muster
