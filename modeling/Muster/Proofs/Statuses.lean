import Muster.Proofs.MoveEffects

/-!
# What the record tells of the status

The newest task of a cluster and the statuses of its generation, read back from the record
(`newest`, `statuses`), and when a mark that bears on them is made (`Rightful`). The status of a
cluster is the last one that its newest task wrote, and where this task stands suits it (`Ruled`).
-/
namespace Muster

/-- Marks that bear on the status: a task is started, cancelled, opens a stream or writes. -/
def Mark.rules : Mark → Bool
  | .spawned _ _ _ | .published _ _ | .cancelled _ | .opened _ _ _ => true
  | _ => false

/-- The newest task of a cluster. -/
def newest (c : String) : List Mark → Option Nat
  | [] => none
  | .spawned id c' _ :: past => if c' = c then some id else newest c past
  | _ :: past => newest c past

/-- The statuses of a cluster since its newest task was started, newest first. -/
def statuses (c : String) : List Mark → List Status
  | [] => []
  | .spawned _ c' _ :: past => if c' = c then [.starting] else statuses c past
  | .published id s :: past =>
    if newest c past = some id then s :: statuses c past else statuses c past
  | _ :: past => statuses c past

/-- The stream that a task opened last. -/
def streamOf (id : Nat) : List Mark → Option Nat
  | [] => none
  | .opened i s _ :: past => if i = id then some s else streamOf id past
  | _ :: past => streamOf id past

/-- When a mark that bears on the status is made: a task is started for a listener that just came,
and cancelled, as the newest of the cluster, when the last one has left; and only the newest task
writes, never that it starts, nothing after it has ended, and not that it has failed once it was
cancelled. -/
def Mark.Rightful (past : List Mark) : Mark → Prop
  | .spawned _ c _ => ∃ l before, past = .attached c l false :: before
  | .cancelled id => ∃ c l before, past = .detached c l :: before ∧ newest c before = some id
  | .published id s => s ≠ .starting ∧ (s = .failed → .cancelled id ∉ past) ∧
    (∃ c, newest c past = some id) ∧ ∀ c, newest c past = some id →
      ∀ s' ∈ (statuses c past).head?, s'.isTerminal = false
  | _ => True

def Rightful : List Mark → Prop
  | [] => True
  | m :: past => m.Rightful past ∧ Rightful past

section
variable {c : String} {id : Nat} {m : Mark} {ms past trace : List Mark}

theorem newest_cons (h : m.rules = false) (c : String) (past : List Mark) :
    newest c (m :: past) = newest c past := by
  cases m <;> first | rfl | cases h

theorem statuses_cons (h : m.rules = false) (c : String) (past : List Mark) :
    statuses c (m :: past) = statuses c past := by
  cases m <;> first | rfl | cases h

theorem streamOf_cons (h : m.rules = false) (id : Nat) (past : List Mark) :
    streamOf id (m :: past) = streamOf id past := by
  cases m <;> first | rfl | cases h

theorem Mark.rightful_of_rules (h : m.rules = false) : m.Rightful past := by
  cases m <;> trivial

/-- Marks that do not bear on the status leave all that is told of it. -/
theorem told_append (h : ∀ m ∈ ms, m.rules = false) (past : List Mark) :
    (∀ c, newest c (ms ++ past) = newest c past) ∧
    (∀ c, statuses c (ms ++ past) = statuses c past) ∧
    (∀ id, streamOf id (ms ++ past) = streamOf id past) ∧
    (Rightful past → Rightful (ms ++ past)) := by
  induction ms with
  | nil => exact ⟨fun _ => rfl, fun _ => rfl, fun _ => rfl, fun h => h⟩
  | cons m rest ih =>
    have hm := h m (by simp)
    obtain ⟨hn, hst, hso, hr⟩ := ih fun m hmem => h m (by simp [hmem])
    exact ⟨fun c => (newest_cons hm c _).trans (hn c), fun c => (statuses_cons hm c _).trans (hst c),
      fun id => (streamOf_cons hm id _).trans (hso id),
      fun hp => ⟨Mark.rightful_of_rules hm, hr hp⟩⟩

theorem Rightful.suffix (h : Rightful trace) (hs : past <:+ trace) : Rightful past := by
  induction trace with
  | nil => exact List.suffix_nil.1 hs ▸ h
  | cons m rest ih =>
    rcases List.suffix_cons_iff.1 hs with rfl | hs
    · exact h
    · exact ih h.2 hs

theorem Rightful.of_suffix (h : Rightful trace) (hs : m :: past <:+ trace) : m.Rightful past :=
  (h.suffix hs).1

/-- A cluster has a status as soon as it has a task. -/
theorem statuses_ne_nil (h : newest c trace = some id) : statuses c trace ≠ [] := by
  induction trace with
  | nil => cases h
  | cons m past ih =>
    cases m with
    | spawned i c' g =>
      simp only [newest, statuses] at h ⊢
      split
      · simp
      · next hc =>
        rw [if_neg hc] at h
        exact ih h
    | published i s =>
      simp only [newest, statuses] at h ⊢
      split
      · simp
      · exact ih h
    | _ => exact ih h

/-- The statuses of a generation: it begins by starting, which never comes again, and the last
status is final. -/
theorem Rightful.statuses (h : Rightful trace) {before after : List Status} {s : Status}
    (hs : statuses c trace = after ++ s :: before) :
    (s = .starting ↔ before = []) ∧ (s.isTerminal = true → after = []) := by
  induction trace generalizing after s before with
  | nil => simp [Muster.statuses] at hs
  | cons m past ih =>
    obtain ⟨hm, hpast⟩ := h
    cases m with
    | spawned i c' g =>
      simp only [Muster.statuses] at hs
      split at hs
      · cases after with
        | nil =>
          simp only [List.nil_append, List.cons.injEq] at hs
          obtain ⟨rfl, rfl⟩ := hs
          simp
        | cons s' rest => simp at hs
      · exact ih hpast hs
    | published i s' =>
      simp only [Muster.statuses] at hs
      split at hs
      · next hnew =>
        obtain ⟨hstart, -, -, hlive⟩ := hm
        cases after with
        | nil =>
          simp only [List.nil_append, List.cons.injEq] at hs
          obtain ⟨rfl, rfl⟩ := hs
          exact ⟨iff_of_false hstart (statuses_ne_nil hnew), fun _ => rfl⟩
        | cons s'' rest =>
          simp only [List.cons_append, List.cons.injEq] at hs
          obtain ⟨rfl, hs⟩ := hs
          obtain ⟨hfirst, hlast⟩ := ih hpast hs
          refine ⟨hfirst, fun hterm => ?_⟩
          cases hlast hterm
          have hlive := hlive c hnew s (by rw [hs]; rfl)
          rw [hterm] at hlive
          cases hlive
      · exact ih hpast hs
    | _ => exact ih hpast hs

end

/-! ## Where a task stands -/

/-- The pass is the first one of an attempt, or the task is active. -/
def Pass.Suits : Pass → Status → Prop
  | .full, s => s = .starting ∨ s = .reconnecting
  | _, s => s = .active

/-- What the status of a cluster may be while its newest task stands at a position. -/
def Position.Suits : Position → Status → Prop
  | opening _, s => s = .starting ∨ s = .reconnecting
  | passing _ pass _, s | calling _ pass _ _ _, s => pass.Suits s
  | listening _, s => s = .active
  | waiting _, s => s = .reconnecting
  | ended, s => s.isTerminal = true

theorem Position.Suits.not_terminal {p : Position} {s : Status} (h : p.Suits s) (hp : p ≠ .ended) :
    s.isTerminal = false := by
  cases p with
  | ended => exact absurd rfl hp
  | opening => rcases h with rfl | rfl <;> rfl
  | waiting => exact h ▸ rfl
  | listening => exact h ▸ rfl
  | passing _ pass | calling _ pass =>
    cases pass with
    | full => rcases h with rfl | rfl <;> rfl
    | _ => exact h ▸ rfl

theorem Position.Suits.stream {p : Position} (h : p.Suits .active) : ∃ s, p.stream? = some s := by
  cases p with
  | opening => rcases h with h | h <;> cases h
  | waiting | ended => cases h
  | _ => exact ⟨_, rfl⟩

theorem Position.suits_clear {p : Position} {s : Status} : p.clear.Suits s ↔ p.Suits s := by
  unfold Position.clear
  split <;> exact Iff.rfl

/-- The task stays what it is, and where it stands suits what it suited before. -/
structure Task.Retains (t t' : Task) : Prop where
  cluster : t'.cluster = t.cluster
  generation : t'.generation = t.generation
  cancelled : t.cancelled = true → t'.cancelled = true
  suits : ∀ s, t.position.Suits s → t'.position.Suits s
  stream : ∀ s, t'.position.stream? = some s → t.position.stream? = some s

theorem Task.Retains.refl (t : Task) : t.Retains t :=
  ⟨rfl, rfl, fun h => h, fun _ h => h, fun _ h => h⟩

theorem Task.Retains.move (t : Task) {p : Position} (hsuits : ∀ s, t.position.Suits s → p.Suits s)
    (hstream : ∀ s, p.stream? = some s → t.position.stream? = some s) :
    t.Retains { t with position := p } := ⟨rfl, rfl, fun h => h, hsuits, hstream⟩

namespace World

variable {setup : Setup} {w w' : World} {c : String} {id : Nat} {t u : Task}

/-- Nothing happens that bears on the status. -/
structure Mute (w w' : World) : Prop where
  slots : w'.slots = w.slots
  trace : ∃ ms, w'.trace = ms ++ w.trace ∧ ∀ m ∈ ms, m.rules = false
  tasks : ∀ id : Nat, w.tasks[id]? = none ∧ w'.tasks[id]? = none ∨
    ∃ t t', w.tasks[id]? = some t ∧ w'.tasks[id]? = some t' ∧ t.Retains t'

namespace Mute

theorem quiet (hs : w'.slots = w.slots) (ht : w'.tasks = w.tasks)
    (hm : ∃ ms, w'.trace = ms ++ w.trace ∧ ∀ m ∈ ms, m.rules = false) : Mute w w' := by
  refine ⟨hs, hm, fun id => ?_⟩
  rw [ht]
  cases w.tasks[id]? with
  | none => exact .inl ⟨rfl, rfl⟩
  | some t => exact .inr ⟨t, t, rfl, rfl, .refl t⟩

theorem same (hs : w'.slots = w.slots) (ht : w'.tasks = w.tasks) (hm : w'.trace = w.trace) :
    Mute w w' := quiet hs ht ⟨[], hm, by simp⟩

theorem count (w : World) (c : Counter) : Mute w (w.count c) := same rfl rfl rfl

theorem note (w : World) {m : Mark} (hm : m.rules = false) : Mute w (w.note m) :=
  quiet rfl rfl ⟨[m], rfl, by simpa using hm⟩

theorem updateTask (w : World) (f : Task → Task)
    (hf : ∀ t, w.tasks[id]? = some t → t.Retains (f t)) : Mute w (w.updateTask id f) := by
  refine ⟨rfl, ⟨[], rfl, by simp⟩, fun j => ?_⟩
  simp only [World.updateTask, List.getElem?_modify]
  cases ht : w.tasks[j]? with
  | none => exact .inl ⟨rfl, rfl⟩
  | some t =>
    refine .inr ⟨t, _, rfl, rfl, ?_⟩
    dsimp only
    by_cases hj : id = j
    · rw [if_pos hj]
      exact hf t (hj ▸ ht)
    · rw [if_neg hj]
      exact .refl t

theorem moveTask (ht : w.tasks[id]? = some t) {p : Position}
    (hsuits : ∀ s, t.position.Suits s → p.Suits s)
    (hstream : ∀ s, p.stream? = some s → t.position.stream? = some s) :
    Mute w (w.moveTask id p) :=
  updateTask w _ fun u hu => by
    cases ht.symm.trans hu
    exact .move t hsuits hstream

theorem aside (h : Aside w w') : Mute w w' := by
  obtain ⟨ms, hms, hm⟩ := h.trace
  refine quiet h.slots h.tasks ⟨ms, hm, fun m hmem => ?_⟩
  have haside := hms m hmem
  cases m <;> first | rfl | cases haside

end Mute

/-- The status of every cluster is the last one that its newest task wrote, rightfully, and where
the newest task stands suits it. -/
structure Ruled (w : World) : Prop where
  rightful : Rightful w.trace
  newest : ∀ {c id}, Muster.newest c w.trace = some id ↔ w.Leads c id
  slot : ∀ {c s}, w.slots.get? c = some s → (statuses c w.trace).head? = some s.status ∧
    ∃ id, Muster.newest c w.trace = some id
  cancelled : ∀ {id}, .cancelled id ∈ w.trace → ∃ t, w.tasks[id]? = some t ∧ t.cancelled = true
  spawned : ∀ {id c g}, .spawned id c g ∈ w.trace → ∃ t, w.tasks[id]? = some t ∧ t.cluster = c
  suits : ∀ {c id t s}, w.Leads c id → w.tasks[id]? = some t → w.slots.get? c = some s →
    t.position.Suits s.status
  stream : ∀ {id t s}, w.tasks[id]? = some t → t.position.stream? = some s →
    streamOf id w.trace = some s

namespace Ruled

theorem start (store : Memory) : Ruled { store } where
  rightful := trivial
  newest := by simp [Muster.newest, Leads]
  slot h := by simp at h
  cancelled h := by simp at h
  spawned h := by simp at h
  suits h := by
    obtain ⟨t, s, ht, -⟩ := h
    simp at ht
  stream h := by simp at h

theorem mute (h : Ruled w) (hm : Mute w w') : Ruled w' := by
  obtain ⟨ms, htrace, hms⟩ := hm.trace
  obtain ⟨hnewest, hstatuses, hstream, hrightful⟩ := told_append hms w.trace
  have hleads : ∀ {c id}, w'.Leads c id ↔ w.Leads c id := by
    intro c id
    rw [Leads, Leads, hm.slots]
    rcases hm.tasks id with ⟨hn, hn'⟩ | ⟨t, t', ht, ht', hr⟩
    · simp [hn, hn']
    · simp [ht, ht', hr.cluster, hr.generation]
  have back : ∀ {id : Nat} {t' : Task}, w'.tasks[id]? = some t' →
      ∃ t : Task, w.tasks[id]? = some t ∧ t.Retains t' := by
    intro id t' ht'
    rcases hm.tasks id with ⟨-, hn⟩ | ⟨t, u, ht, hu, hr⟩
    · rw [hn] at ht'
      cases ht'
    · cases hu.symm.trans ht'
      exact ⟨t, ht, hr⟩
  constructor
  case rightful => exact htrace ▸ hrightful h.rightful
  case newest =>
    intro c id
    rw [htrace, hnewest, hleads]
    exact h.newest
  case slot =>
    intro c s hs
    rw [htrace, hstatuses, hnewest]
    exact h.slot (hm.slots ▸ hs)
  case cancelled =>
    intro id hmem
    rw [htrace, List.mem_append] at hmem
    rcases hmem with hmem | hmem
    · have hfalse := hms _ hmem
      cases hfalse
    · obtain ⟨t, ht, hcan⟩ := h.cancelled hmem
      rcases hm.tasks id with ⟨hn, -⟩ | ⟨u, u', hu, hu', hr⟩
      · rw [hn] at ht
        cases ht
      · cases hu.symm.trans ht
        exact ⟨u', hu', hr.cancelled hcan⟩
  case spawned =>
    intro id c g hmem
    rw [htrace, List.mem_append] at hmem
    rcases hmem with hmem | hmem
    · have hfalse := hms _ hmem
      cases hfalse
    · obtain ⟨t, ht, hc⟩ := h.spawned hmem
      rcases hm.tasks id with ⟨hn, -⟩ | ⟨u, u', hu, hu', hr⟩
      · rw [hn] at ht
        cases ht
      · cases hu.symm.trans ht
        exact ⟨u', hu', hr.cluster.trans hc⟩
  case suits =>
    intro c id t' s hl ht' hs
    obtain ⟨t, ht, hr⟩ := back ht'
    exact hr.suits _ (h.suits (hleads.1 hl) ht (hm.slots ▸ hs))
  case stream =>
    intro id t' s ht' hs
    obtain ⟨t, ht, hr⟩ := back ht'
    rw [htrace, hstream]
    exact h.stream ht (hr.stream s hs)

/-- A task is started for a listener that just came. -/
theorem spawn (h : Ruled w) (hs : ∀ {id ch}, w.charge? id = some ch →
      ∃ s, w.slots.get? ch.cluster = some s ∧ ch.generation ≤ s.generation) {l : Listener}
    {before : List Mark} (hl : w.trace = .attached c l false :: before) :
    Ruled (w.spawn setup c) := by
  have hold : ∀ {id : Nat}, id ≠ w.tasks.length →
      (w.spawn setup c).tasks[id]? = w.tasks[id]? := by
    intro id hne
    simp only [World.spawn, World.note, World.count, List.getElem?_append]
    split
    · rfl
    · next hge => rw [List.getElem?_eq_none (by simp; omega), List.getElem?_eq_none (by omega)]
  have hnew : (w.spawn setup c).tasks[w.tasks.length]? = some {
      cluster := c, generation := ((w.slots.get? c).getD {}).begin.generation
      backoff := Backoff.ofPolicy setup.config.restart } := List.getElem?_concat_length
  have hslots : ∀ c', (w.spawn setup c).slots.get? c' =
      if c = c' then some ((w.slots.get? c).getD {}).begin else w.slots.get? c' := fun c' => by
    simp [World.spawn, World.note, World.count]
  -- The newest task is the new one, or a task of another cluster that was the newest before.
  have hleads : ∀ {c' id}, (w.spawn setup c).Leads c' id ↔
      if c = c' then id = w.tasks.length else w.Leads c' id := by
    intro c' id
    refine ⟨fun hl => hl.of_spawn hs, fun hl => ?_⟩
    split at hl
    · next hc =>
      subst hc hl
      exact ⟨_, _, hnew, rfl, by rw [hslots, if_pos rfl], rfl⟩
    · next hc =>
      obtain ⟨t, s, ht, htc, hs, hg⟩ := hl
      have hlt := (List.getElem?_eq_some_iff.1 ht).1
      exact ⟨t, s, by rw [hold (by omega), ht], htc, by rw [hslots, if_neg hc, hs], hg⟩
  constructor
  case rightful => exact ⟨⟨l, before, hl⟩, h.rightful⟩
  case newest =>
    intro c' id
    rw [hleads]
    show (if c = c' then some w.tasks.length else Muster.newest c' w.trace) = some id ↔ _
    split
    · simp [eq_comm]
    · exact h.newest
  case slot =>
    intro c' s hs
    rw [hslots] at hs
    show (if c = c' then [.starting] else statuses c' w.trace).head? = _ ∧
      ∃ id, (if c = c' then some w.tasks.length else Muster.newest c' w.trace) = some id
    split at hs
    · next hc =>
      cases hs
      simp only [if_pos hc]
      exact ⟨rfl, _, rfl⟩
    · next hc =>
      simp only [if_neg hc]
      exact h.slot hs
  case cancelled =>
    intro id hmem
    have hmem : .cancelled id ∈ w.trace := by simpa [World.spawn, World.note, World.count] using hmem
    obtain ⟨t, ht, hcan⟩ := h.cancelled hmem
    have hlt := (List.getElem?_eq_some_iff.1 ht).1
    exact ⟨t, by rw [hold (by omega), ht], hcan⟩
  case spawned =>
    intro id c' g hmem
    rcases List.mem_cons.1 hmem with heq | hmem
    · cases heq
      exact ⟨_, hnew, rfl⟩
    · obtain ⟨t, ht, hc⟩ := h.spawned hmem
      have hlt := (List.getElem?_eq_some_iff.1 ht).1
      exact ⟨t, by rw [hold (by omega), ht], hc⟩
  case suits =>
    intro c' id t s hlead ht hs
    rw [hleads] at hlead
    rw [hslots] at hs
    split at hlead
    · next hc =>
      subst hc hlead
      rw [if_pos rfl] at hs
      cases hs
      cases hnew.symm.trans ht
      exact .inl rfl
    · next hc =>
      rw [if_neg hc] at hs
      have hlt : id < w.tasks.length := by
        obtain ⟨u, -, hu, -⟩ := hlead
        exact (List.getElem?_eq_some_iff.1 hu).1
      rw [hold (by omega)] at ht
      exact h.suits hlead ht hs
  case stream =>
    intro id t s ht hs
    by_cases hid : id = w.tasks.length
    · subst hid
      cases hnew.symm.trans ht
      cases hs
    · rw [hold hid] at ht
      exact h.stream ht hs

/-- The newest task of a cluster is cancelled as the last listener has left. -/
theorem cancel (h : Ruled w) (hl : w.Leads c id) {l : Listener} {before : List Mark}
    (htrace : w.trace = .detached c l :: before) : Ruled (w.cancel id) := by
  have hnewest : Muster.newest c before = some id := by
    have hn := h.newest.2 hl
    rwa [htrace] at hn
  obtain ⟨t, -, ht, -⟩ := hl
  have hflag : Ruled (w.updateTask id fun t => { t with cancelled := true }) :=
    h.mute (.updateTask w _ fun u _ => ⟨rfl, rfl, fun _ => rfl, fun _ h => h, fun _ h => h⟩)
  refine ⟨⟨⟨c, l, before, htrace, hnewest⟩, hflag.rightful⟩, hflag.newest, hflag.slot,
    fun {j} hmem => ?_, fun hmem => hflag.spawned (by simpa [World.cancel, World.note] using hmem),
    hflag.suits, hflag.stream⟩
  rcases List.mem_cons.1 hmem with heq | hmem
  · cases heq
    exact ⟨{ t with cancelled := true }, by simp [World.cancel, updateTask, World.note, ht], rfl⟩
  · exact hflag.cancelled hmem

theorem attach (h : Ruled w) (hs : Supervised w) (c : String) (l : Listener) :
    Ruled (w.attach setup c l).2 := by
  unfold World.attach
  split
  · exact h
  · split
    · have hnoted : Ruled ({ w with listeners := (w.listeners.enqueue c l).add c l }.note
          (.attached c l true)) :=
        h.mute (.quiet rfl rfl ⟨[.attached c l true], rfl, by simp [Mark.rules]⟩)
      exact hnoted.mute
        (.updateTask _ _ fun u _ => ⟨rfl, rfl, fun h => h, fun _ h => h, fun _ h => h⟩)
    · have hnoted : Ruled ({ w with listeners := w.listeners.add c l }.note
          (.attached c l false)) :=
        h.mute (.quiet rfl rfl ⟨[.attached c l false], rfl, by simp [Mark.rules]⟩)
      exact hnoted.spawn hs.slot rfl

theorem detach (h : Ruled w) (hs : Supervised w) (c : String) (l : Listener) :
    Ruled (w.detach c l).2.2 := by
  unfold World.detach
  split
  · exact h
  · next listeners _ =>
    have hnoted : Ruled ({ w with listeners, handles := w.handles.erase c }.note (.detached c l)) :=
      h.mute (.quiet rfl rfl ⟨[.detached c l], rfl, by simp [Mark.rules]⟩)
    dsimp only
    split
    · exact hnoted
    · next id hh => exact hnoted.cancel ((hs.leads_of_handle hh).same rfl rfl) rfl
  · exact h.mute (.quiet rfl rfl ⟨[.detached c l], rfl, by simp [Mark.rules]⟩)

theorem close (h : Ruled w) : Ruled w.close.2 := by
  refine h.mute ⟨rfl, ⟨[], rfl, by simp⟩, fun id => ?_⟩
  simp only [World.close, cancelAll, List.getElem?_map]
  cases w.tasks[id]? with
  | none => exact .inl ⟨rfl, rfl⟩
  | some t => exact .inr ⟨t, _, rfl, rfl, ⟨rfl, rfl, fun _ => rfl, fun _ h => h, fun _ h => h⟩⟩

theorem edits (h : Ruled w) (hs : Supervised w) (e : Edits setup w w') : Ruled w' := by
  induction e with
  | aside ha => exact h.mute (.aside ha)
  | attach w c l => exact h.attach hs c l
  | detach w c name => exact h.detach hs c _
  | close w => exact h.close
  | trans e _ ih ih' => exact ih' (ih h hs) (hs.edits e)

/-! ## What tasks write -/

theorem publish_cases (w : World) (id : Nat) (t : Task) (s : Status) :
    (∃ slot, w.slots.get? t.cluster = some slot ∧ slot.generation = t.generation ∧
      w.publish id t s = { w with
        slots := w.slots.insert t.cluster ⟨slot.generation, s, slot.version + 1⟩
        trace := .published id s :: w.trace }) ∨
    (∀ slot, w.slots.get? t.cluster = some slot → slot.generation ≠ t.generation) ∧
      w.publish id t s = w := by
  unfold World.publish
  cases hs : w.slots.get? t.cluster with
  | none => exact .inr ⟨fun _ h => (by cases h), rfl⟩
  | some slot =>
    by_cases hg : slot.generation = t.generation
    · exact .inl ⟨slot, rfl, hg, by simp [hg, Slot.publish, World.note]⟩
    · exact .inr ⟨fun _ h => Option.some.inj h ▸ hg, if_neg hg⟩

/-- A change of a task that leaves alone whose task it is. -/
structure Names (f : Task → Task) : Prop where
  cluster : ∀ u, (f u).cluster = u.cluster
  generation : ∀ u, (f u).generation = u.generation
  cancelled : ∀ u, (f u).cancelled = u.cancelled

section
variable {f : Task → Task} {v : World} {j : Nat} {r : Task}

theorem getElem?_of_modify (hr : (w.tasks.modify id f)[j]? = some r) :
    ∃ r₀ : Task, w.tasks[j]? = some r₀ ∧ r = if id = j then f r₀ else r₀ := by
  rw [List.getElem?_modify] at hr
  obtain ⟨r₀, hr₀, heq⟩ := Option.map_eq_some_iff.1 hr
  exact ⟨r₀, hr₀, heq.symm⟩

/-- Nobody else becomes the newest, and who is the newest stays so. -/
theorem leads_modify (hf : Names f) (ht : v.tasks = w.tasks.modify id f)
    (hs : ∀ c, (v.slots.get? c).map Slot.generation = (w.slots.get? c).map Slot.generation) :
    v.Leads c j ↔ w.Leads c j := by
  have names : ∀ r₀ : Task, ((if id = j then f r₀ else r₀) : Task).cluster = r₀.cluster ∧
      ((if id = j then f r₀ else r₀) : Task).generation = r₀.generation := by
    intro r₀
    split
    · exact ⟨hf.cluster r₀, hf.generation r₀⟩
    · exact ⟨rfl, rfl⟩
  have hgen := hs c
  constructor
  · rintro ⟨r, sl, hr, hrc, hsl, hrg⟩
    rw [ht] at hr
    obtain ⟨r₀, hr₀, rfl⟩ := getElem?_of_modify hr
    rw [hsl] at hgen
    obtain ⟨sl₀, hsl₀, hgen⟩ := Option.map_eq_some_iff.1 hgen.symm
    exact ⟨r₀, sl₀, hr₀, (names r₀).1 ▸ hrc, hsl₀, hgen.trans (hrg.trans (names r₀).2)⟩
  · rintro ⟨r₀, sl₀, hr₀, hrc, hsl₀, hrg⟩
    rw [hsl₀] at hgen
    obtain ⟨sl, hsl, hgen⟩ := Option.map_eq_some_iff.1 hgen
    have hr : v.tasks[j]? = some (if id = j then f r₀ else r₀) := by
      rw [ht, List.getElem?_modify, hr₀]
      rfl
    exact ⟨_, sl, hr, (names r₀).1.trans hrc, hsl, hgen.trans (hrg.trans (names r₀).2.symm)⟩

theorem cancelled_modify (h : Ruled w) (hf : Names f) (hmem : .cancelled j ∈ w.trace) :
    ∃ r, (w.tasks.modify id f)[j]? = some r ∧ r.cancelled = true := by
  obtain ⟨r, hr, hcan⟩ := h.cancelled hmem
  refine ⟨if id = j then f r else r, by rw [List.getElem?_modify, hr]; rfl, ?_⟩
  split
  · exact (hf.cancelled r).trans hcan
  · exact hcan

theorem spawned_modify {g : Nat} (h : Ruled w) (hf : Names f) (hmem : .spawned j c g ∈ w.trace) :
    ∃ r, (w.tasks.modify id f)[j]? = some r ∧ r.cluster = c := by
  obtain ⟨r, hr, hc⟩ := h.spawned hmem
  refine ⟨if id = j then f r else r, by rw [List.getElem?_modify, hr]; rfl, ?_⟩
  split
  · exact (hf.cluster r).trans hc
  · exact hc

theorem stream_modify {s : Nat} (h : Ruled w) (hu : w.tasks[id]? = some u)
    (hstream : ∀ x, (f u).position.stream? = some x → u.position.stream? = some x)
    (hr : (w.tasks.modify id f)[j]? = some r) (hs : r.position.stream? = some s) :
    streamOf j w.trace = some s := by
  obtain ⟨r₀, hr₀, rfl⟩ := getElem?_of_modify hr
  split at hs
  · next hj =>
    subst hj
    cases hu.symm.trans hr₀
    exact h.stream hu (hstream s hs)
  · exact h.stream hr₀ hs

/-- The newest task of its cluster writes a status and moves to where this suits. -/
theorem wrote_newest (h : Ruled w) {s : Status} {slot : Slot} (hu : w.tasks[id]? = some u)
    (hend : u.position ≠ .ended) (hstart : s ≠ .starting)
    (hfail : s = .failed → u.cancelled = false) (hf : Names f)
    (hsuits : (f u).position.Suits s)
    (hstream : ∀ x, (f u).position.stream? = some x → u.position.stream? = some x)
    (hslot : w.slots.get? u.cluster = some slot) (hg : slot.generation = u.generation) :
    Ruled { w with
      slots := w.slots.insert u.cluster ⟨slot.generation, s, slot.version + 1⟩
      trace := .published id s :: w.trace, tasks := w.tasks.modify id f } := by
  have hlead : w.Leads u.cluster id := ⟨u, slot, hu, rfl, hslot, hg⟩
  have hnew : Muster.newest u.cluster w.trace = some id := h.newest.2 hlead
  have hown : ∀ {c}, Muster.newest c w.trace = some id → c = u.cluster := by
    intro c hn
    obtain ⟨r, -, hr, hrc, -⟩ := h.newest.1 hn
    cases hu.symm.trans hr
    exact hrc.symm
  have hget : ∀ c, (w.slots.insert u.cluster ⟨slot.generation, s, slot.version + 1⟩).get? c =
      if u.cluster = c then some ⟨slot.generation, s, slot.version + 1⟩ else w.slots.get? c :=
    fun c => by simp
  have hleads : ∀ {c j}, ({ w with
      slots := w.slots.insert u.cluster ⟨slot.generation, s, slot.version + 1⟩
      trace := .published id s :: w.trace, tasks := w.tasks.modify id f } : World).Leads c j ↔
        w.Leads c j := leads_modify hf rfl fun c => by
    rw [hget]
    split
    · next hcc => rw [← hcc, hslot]; rfl
    · rfl
  constructor
  case rightful =>
    refine ⟨⟨hstart, fun hs hmem => ?_, ⟨_, hnew⟩, fun c hn s' hs' => ?_⟩, h.rightful⟩
    · obtain ⟨r, hr, hcan⟩ := h.cancelled hmem
      cases hu.symm.trans hr
      rw [hfail hs] at hcan
      cases hcan
    · cases hown hn
      rw [(h.slot hslot).1] at hs'
      cases hs'
      exact (h.suits hlead hu hslot).not_terminal hend
  case newest =>
    intro c j
    rw [hleads]
    exact h.newest
  case slot =>
    intro c sl hsl
    show (if Muster.newest c w.trace = some id then s :: statuses c w.trace
      else statuses c w.trace).head? = _ ∧ _
    rw [hget] at hsl
    split at hsl
    · next hcc =>
      subst hcc
      cases hsl
      rw [if_pos hnew]
      exact ⟨rfl, id, hnew⟩
    · next hcc =>
      rw [if_neg fun hn => hcc (hown hn).symm]
      exact h.slot hsl
  case cancelled => exact fun hmem => h.cancelled_modify hf (by simpa using hmem)
  case spawned => exact fun hmem => h.spawned_modify hf (by simpa using hmem)
  case suits =>
    intro c j r sl hl hr hsl
    have hl := hleads.1 hl
    rw [hget] at hsl
    obtain ⟨r₀, hr₀, rfl⟩ := getElem?_of_modify hr
    by_cases hj : id = j
    · subst hj
      cases hu.symm.trans hr₀
      have hcc := hown (h.newest.2 hl)
      rw [if_pos hcc.symm] at hsl
      cases hsl
      rw [if_pos rfl]
      exact hsuits
    · have hcc : u.cluster ≠ c := by
        rintro rfl
        have hn := h.newest.2 hl
        rw [hnew] at hn
        exact hj (Option.some.inj hn)
      rw [if_neg hcc] at hsl
      rw [if_neg hj]
      exact h.suits hl hr₀ hsl
  case stream => exact fun hr hx => h.stream_modify hu hstream hr hx

/-- A task that was superseded writes nothing and moves anywhere. -/
theorem wrote_superseded (h : Ruled w) (hu : w.tasks[id]? = some u) (hf : Names f)
    (hstream : ∀ x, (f u).position.stream? = some x → u.position.stream? = some x)
    (hold : ∀ c, ¬ w.Leads c id) : Ruled { w with tasks := w.tasks.modify id f } := by
  have hleads : ∀ {c j}, ({ w with tasks := w.tasks.modify id f } : World).Leads c j ↔
      w.Leads c j := leads_modify hf rfl fun _ => rfl
  refine ⟨h.rightful, ?_, h.slot, h.cancelled_modify hf, h.spawned_modify hf,
    fun {c j r sl} hl hr hsl => ?_, h.stream_modify hu hstream⟩
  · intro c j
    rw [hleads]
    exact h.newest
  · have hl := hleads.1 hl
    obtain ⟨r₀, hr₀, rfl⟩ := getElem?_of_modify hr
    have hj : id ≠ j := by
      rintro rfl
      exact hold c hl
    rw [if_neg hj]
    exact h.suits hl hr₀ hsl

/-- A task that has not ended writes a status and moves to where this suits. -/
theorem wrote (h : Ruled w) {s : Status} (hu : w.tasks[id]? = some u)
    (hc : u.cluster = t.cluster) (hg : u.generation = t.generation) (hend : u.position ≠ .ended)
    (hstart : s ≠ .starting) (hfail : s = .failed → u.cancelled = false) (hf : Names f)
    (hsuits : (f u).position.Suits s)
    (hstream : ∀ x, (f u).position.stream? = some x → u.position.stream? = some x)
    (hslots : w'.slots = (w.publish id t s).slots) (htasks : w'.tasks = w.tasks.modify id f)
    (htrace : ∃ ms, w'.trace = ms ++ (w.publish id t s).trace ∧ ∀ m ∈ ms, m.rules = false) :
    Ruled w' := by
  suffices hv : Ruled { w.publish id t s with tasks := w.tasks.modify id f } from
    hv.mute (.quiet hslots htasks htrace)
  rcases publish_cases w id t s with ⟨slot, hslot, hgen, hp⟩ | ⟨hold, hp⟩
  · rw [hp, ← hc]
    exact h.wrote_newest hu hend hstart hfail hf hsuits hstream (hc ▸ hslot) (hgen.trans hg.symm)
  · rw [hp]
    refine h.wrote_superseded hu hf hstream fun c hl => ?_
    obtain ⟨r, sl, hr, hrc, hsl, hrg⟩ := hl
    cases hu.symm.trans hr
    rw [← hrc, hc] at hsl
    exact hold sl hsl (hrg.trans hg)

end

theorem publish_updateTask (w : World) (id j : Nat) (f : Task → Task) (t : Task) (s : Status) :
    (w.updateTask j f).publish id t s = (w.publish id t s).updateTask j f := by
  unfold World.publish
  cases hs : w.slots.get? t.cluster with
  | none => simp [updateTask, hs]
  | some slot =>
    simp only [updateTask, hs]
    split <;> rfl

theorem finishTask (h : Ruled w) {s : Status} (hu : w.tasks[id]? = some u)
    (hc : u.cluster = t.cluster) (hg : u.generation = t.generation) (hend : u.position ≠ .ended)
    (hs : s.isTerminal = true) (hfail : s = .failed → u.cancelled = false) :
    Ruled (w.finishTask id t s) := by
  refine h.wrote (f := fun t => { t with position := .ended }) hu hc hg hend
    (fun hstart => ?_) hfail (⟨fun _ => rfl, fun _ => rfl, fun _ => rfl⟩) hs (fun x hx => ?_) rfl ?_
    ⟨[.ended id], rfl, by simp [Mark.rules]⟩
  · rw [hstart] at hs
    cases hs
  · cases hx
  · show (w.publish id t s).tasks.modify _ _ = _
    rw [(publish_others _ id t _).1]

theorem dropAttempt (h : Ruled w) (ht : w.tasks[id]? = some t) (hend : t.position ≠ .ended)
    (hcan : t.cancelled = false) : Ruled (w.dropAttempt setup id t) := by
  rcases dropAttempt_cases setup w id t with ⟨-, heq⟩ | ⟨-, heq⟩ <;> rw [heq]
  · have hfail : Ruled (w.updateTask id fun u => { u with failures := t.failures + 1 }) :=
      h.mute (.updateTask w _ fun u _ => ⟨rfl, rfl, fun h => h, fun _ h => h, fun _ h => h⟩)
    have hcounted : Ruled ((w.updateTask id fun u => { u with failures := t.failures + 1 }).count
        .subscriptionFailures) := hfail.mute (.same rfl rfl rfl)
    refine hcounted.finishTask (u := { t with failures := t.failures + 1 }) ?_ rfl rfl hend rfl
      fun _ => hcan
    simp [World.count, updateTask, ht]
  · have hdrawn : Ruled { w with draws := w.draws + 1 } := h.mute (.same rfl rfl rfl)
    rw [publish_updateTask]
    refine hdrawn.wrote (f := fun u => { u with
      failures := t.failures + 1, backoff := t.backoff.next.2
      position := .waiting (w.clock + setup.delay w.draws t.backoff.next.1) }) ht rfl rfl hend
      (by simp) (fun hs => by cases hs) (⟨fun _ => rfl, fun _ => rfl, fun _ => rfl⟩) rfl (fun x hx => ?_) rfl ?_
      ⟨[], rfl, by simp⟩
    · cases hx
    · show (World.publish _ id t _).tasks.modify _ _ = _
      rw [(publish_others _ id t _).1]

theorem endAttempt (h : Ruled w) (ht : w.tasks[id]? = some t) (hend : t.position ≠ .ended)
    (hcan : t.cancelled = false) (f : Fault) : Ruled (w.endAttempt setup id t f) := by
  have hmute : Mute w (w.closeStream t) := by
    unfold World.closeStream
    split <;> exact .same rfl rfl rfl
  have htc : (w.closeStream t).tasks[id]? = some t := by
    unfold World.closeStream
    split <;> exact ht
  have hclosed := h.mute hmute
  unfold World.endAttempt
  dsimp only
  split
  · have hcounted : Ruled ((w.closeStream t).count .subscriptionFailures) :=
      hclosed.mute (.same rfl rfl rfl)
    exact hcounted.finishTask htc rfl rfl hend rfl fun _ => hcan
  · exact hclosed.dropAttempt htc hend hcan

/-- The call of a listener returned, within a pass that suits the status. -/
theorem afterCallback (h : Ruled w) (ht : w.tasks[id]? = some t) (hcan : t.cancelled = false)
    {stream : Nat} {pass : Pass} (hstream : t.position.stream? = some stream)
    (hsuits : ∀ s, t.position.Suits s → pass.Suits s) (l : Listener) (fault : Option Fault)
    (rest : List Listener) : Ruled (w.afterCallback setup id t stream pass l fault rest) := by
  have hend : t.position ≠ .ended := fun he => by
    rw [he] at hstream
    cases hstream
  have hnoted : Ruled (w.note (.returned id l pass.hook fault)) := h.mute (.note w rfl)
  have hcounted : ∀ c, Ruled ((w.note (.returned id l pass.hook fault)).count c) :=
    fun c => hnoted.mute (.same rfl rfl rfl)
  have moved : ∀ {v : World}, Ruled v → v.tasks = w.tasks →
      Ruled (v.moveTask id (.passing stream pass rest)) := fun {v} hv htv =>
    hv.mute (.moveTask (by rw [htv]; exact ht) hsuits fun _ hs => hstream.trans hs)
  unfold World.afterCallback
  dsimp only
  split
  · exact moved hnoted rfl
  · split
    · exact (hcounted _).endAttempt ht hend hcan _
    · exact moved (hcounted _) rfl
  · exact hnoted.endAttempt ht hend hcan _

theorem finishPass (h : Ruled w) (ht : w.tasks[id]? = some t) {stream : Nat} {pass : Pass}
    (hp : t.position = .passing stream pass []) : Ruled (w.finishPass id t stream pass) := by
  have hstream : t.position.stream? = some stream := by rw [hp]; rfl
  cases pass with
  | full =>
    refine h.wrote (s := .active) (f := fun t => { t with
      failures := 0, backoff := t.backoff.reset, position := .listening stream }) ht rfl rfl
      (by simp [hp]) (by simp) (fun hs => by cases hs) (⟨fun _ => rfl, fun _ => rfl, fun _ => rfl⟩) rfl
      (fun _ hs => hstream.trans hs) rfl ?_ ⟨[], rfl, by simp⟩
    show (w.publish id t .active).tasks.modify _ _ = _
    rw [(publish_others _ id t _).1]
  | beforeDelivery m audience =>
    exact h.mute (.moveTask ht (fun _ hs => by rw [hp] at hs; exact hs)
      fun _ hs => hstream.trans hs)
  | joined | delivery m =>
    exact h.mute (.moveTask ht (fun _ hs => by rw [hp] at hs; exact hs)
      fun _ hs => hstream.trans hs)

theorem call (h : Ruled w) (ht : w.tasks[id]? = some t) (hcan : t.cancelled = false)
    {stream : Nat} {pass : Pass} {l : Listener} {rest : List Listener}
    (hp : t.position = .passing stream pass (l :: rest)) :
    Ruled (w.call setup id t stream pass l rest) := by
  have hstream : t.position.stream? = some stream := by rw [hp]; rfl
  have hsuits : ∀ s, t.position.Suits s → pass.Suits s := fun s hs => by
    rw [hp] at hs
    exact hs
  have hnoted : Ruled (w.note (.called id l pass.hook)) := h.mute (.note w rfl)
  have moved : ∀ {v : World}, Ruled v → v.tasks = w.tasks → ∀ cb,
      Ruled (v.moveTask id (.calling stream pass l cb rest)) := fun {v} hv htv cb =>
    hv.mute (.moveTask (by rw [htv]; exact ht) hsuits fun _ hs => hstream.trans hs)
  have visited : ∀ visits, Ruled { w.note (.called id l pass.hook) with visits } :=
    fun visits => hnoted.mute (.same rfl rfl rfl)
  have happlied : ∀ m, Mute (w.note (.called id l pass.hook))
      ((w.note (.called id l pass.hook)).applyEvent t.cluster m).2 ∧
      ((w.note (.called id l pass.hook)).applyEvent t.cluster m).2.tasks = w.tasks := fun m => by
    unfold World.applyEvent
    split <;> exact ⟨.same rfl rfl rfl, rfl⟩
  unfold World.call
  dsimp only
  split
  · exact moved (visited _) rfl _
  · exact (hnoted.mute (happlied _).1).afterCallback (by rw [(happlied _).2]; exact ht) hcan hstream
      hsuits _ _ _
  · exact moved hnoted rfl _

/-- A task opened a stream. -/
theorem opened (h : Ruled w) (ht : w.tasks[id]? = some t) {g : Gate}
    (hp : t.position = .opening g) (stream : Nat) : Ruled (w.beginFullPass id t stream) := by
  have htook : Ruled (w.takePending id t.cluster).2 :=
    h.mute (.quiet rfl rfl ⟨[.took id t.cluster _], rfl, by simp [Mark.rules]⟩)
  -- Seen from the status the pass is like the opening; only the stream is new.
  have htasks : ∀ j : Nat, (w.beginFullPass id t stream).tasks[j]? = (w.tasks[j]?).map fun u =>
      if id = j then { u with position := .passing stream .full (w.listeners.of t.cluster) } else u :=
    fun j => List.getElem?_modify ..
  have hleads : ∀ {c j}, (w.beginFullPass id t stream).Leads c j ↔ w.Leads c j := by
    intro c j
    rw [Leads, Leads, htasks]
    cases w.tasks[j]? with
    | none => simp
    | some u =>
      show (∃ u' s, some (if id = j then _ else u) = some u' ∧ u'.cluster = c ∧
        w.slots.get? c = some s ∧ s.generation = u'.generation) ↔ _
      by_cases hj : id = j <;> simp [hj]
  have kept : ∀ {j : Nat} {u : Task}, (w.beginFullPass id t stream).tasks[j]? = some u → j ≠ id →
      w.tasks[j]? = some u := by
    intro j u hu hj
    rw [htasks] at hu
    obtain ⟨u₀, hu₀, rfl⟩ := Option.map_eq_some_iff.1 hu
    rw [if_neg (Ne.symm hj)]
    exact hu₀
  constructor
  case rightful => exact ⟨trivial, htook.rightful⟩
  case newest =>
    intro c j
    rw [hleads]
    exact h.newest
  case slot => exact h.slot
  case cancelled =>
    intro j hmem
    obtain ⟨u, hu, hcan⟩ := h.cancelled (by simpa [World.beginFullPass, takePending, moveTask,
      updateTask, World.note] using hmem)
    refine ⟨_, (htasks j).trans (by rw [hu]; rfl), ?_⟩
    split <;> exact hcan
  case spawned =>
    intro j c g' hmem
    obtain ⟨u, hu, hc⟩ := h.spawned (by simpa [World.beginFullPass, takePending, moveTask,
      updateTask, World.note] using hmem)
    refine ⟨_, (htasks j).trans (by rw [hu]; rfl), ?_⟩
    split <;> exact hc
  case suits =>
    intro c j u s hl hu hs
    by_cases hj : j = id
    · subst hj
      rw [htasks, ht] at hu
      cases hu
      have hold := h.suits (hleads.1 hl) ht hs
      rw [hp] at hold
      dsimp only
      rw [if_pos rfl]
      exact hold
    · exact h.suits (hleads.1 hl) (kept hu hj) hs
  case stream =>
    intro j u s hu hs
    show (if id = j then some stream else streamOf j w.trace) = some s
    by_cases hj : j = id
    · subst hj
      rw [htasks, ht] at hu
      cases hu
      dsimp only at hs
      rw [if_pos rfl] at hs ⊢
      exact hs
    · rw [if_neg (Ne.symm hj)]
      exact h.stream (kept hu hj) hs

theorem receive (h : Ruled w) (ht : w.tasks[id]? = some t) (hcan : t.cancelled = false)
    {stream : Nat} (hp : t.position = .listening stream) (payload : String) :
    Ruled (w.receive setup id t stream payload) := by
  have hend : t.position ≠ .ended := by simp [hp]
  have hcounted : Ruled (w.count .eventsReceived) := h.mute (.count w _)
  unfold World.receive
  split
  · exact h.endAttempt ht hend hcan _
  · next message _ =>
    dsimp only
    split
    · exact (hcounted.mute (.count _ .protocolFaults)).endAttempt ht hend hcan _
    · have hdispatched : Ruled (((w.count .eventsReceived).takePending id t.cluster).2.note
          (.dispatched id message (w.listeners.of t.cluster))) :=
        hcounted.mute (.quiet rfl rfl ⟨[_, _], rfl, by simp [Mark.rules]⟩)
      exact hdispatched.mute (.moveTask (t := t) (by exact ht)
        (fun _ hs => by rw [hp] at hs; exact hs) fun _ hs => by rw [hp]; exact hs)

theorem openStream_mute (w : World) (who : Actor) (key : String) :
    Mute w (w.openStream who key).2 ∧ (w.openStream who key).2.tasks = w.tasks := by
  rcases perform_cases w who (.subscribe key) fun s => s.subscribe key with
    ⟨f, faults, h⟩ | ⟨a, store, faults, -, h⟩ <;>
  · rw [World.openStream, h]
    exact ⟨.quiet rfl rfl ⟨[_], rfl, by simp [Mark.rules]⟩, rfl⟩

/-- A listener that the task called did something. -/
theorem settleAction {v : World} (h : Ruled v) (hv : Elsewhere id w v) (ht : w.tasks[id]? = some t)
    {stream : Nat} {pass : Pass} {l : Listener} {cb : Callback} {rest : List Listener}
    (hp : t.position = .calling stream pass l cb rest) (name label : String)
    (more : List (String × Action)) (fault : Option Fault) (p : Progress) :
    Ruled (v.settleAction id stream pass l rest name label more fault p) := by
  obtain ⟨u, hu, -, hpu, -⟩ := hv.task t ht
  rw [hp] at hpu
  have moved : ∀ {v' : World}, Ruled v' → v'.tasks = v.tasks → ∀ cb',
      Ruled (v'.moveTask id (.calling stream pass l cb' rest)) := fun {v'} hv' htv cb' =>
    hv'.mute (.moveTask (by rw [htv]; exact hu) (fun _ hs => by rw [hpu] at hs; exact hs)
      fun _ hs => by rw [hpu]; exact hs)
  cases p with
  | finished a => exact moved (h.mute (.note v rfl)) rfl _
  | paused stage => exact moved h rfl _

theorem taskStep (h : Ruled w) (hs : Supervised w) (ht : w.tasks[id]? = some t)
    (he : t.isEnded = false) (hcan : t.cancelled = false) (step : TaskStep setup w id t w') :
    Ruled w' := by
  have hend : t.position ≠ .ended := fun hp => by
    rw [Task.isEnded_iff.2 hp] at he
    cases he
  cases step with
  | @parked p hp =>
    refine h.mute (.moveTask ht (fun s hsuits => ?_) fun s hs => ?_)
    · rw [← Position.suits_clear, hp, Position.suits_clear]
      exact hsuits
    · rwa [← Position.stream?_clear, ← hp, Position.stream?_clear]
  | refused hp hopen =>
    have hr := openStream_mute w (.task id) (registryKey t.cluster)
    rw [hopen] at hr
    exact (h.mute hr.1).dropAttempt (by rw [hr.2]; exact ht) hend hcan
  | opened hp hopen =>
    have hr := openStream_mute w (.task id) (registryKey t.cluster)
    rw [hopen] at hr
    exact (h.mute hr.1).opened (by rw [hr.2]; exact ht) hp _
  | passed hp => exact h.finishPass ht hp
  | called hp => exact h.call ht hcan hp
  | unread hp hread =>
    have hr := readFields_aside w (.task id) (registryKey t.cluster)
    rw [hread] at hr
    exact (h.mute (.aside hr)).afterCallback (by rw [hr.tasks]; exact ht) hcan (by rw [hp]; rfl)
      (fun s hsuits => by rw [hp] at hsuits; exact hsuits) _ _ _
  | read hp hread =>
    have hr := readFields_aside w (.task id) (registryKey t.cluster)
    rw [hread] at hr
    exact (h.mute (.aside hr)).mute (.moveTask (by rw [hr.tasks]; exact ht)
      (fun s hsuits => by rw [hp] at hsuits; exact hsuits) fun s hs => by rw [hp]; exact hs)
  | replaced hp =>
    have hcached : ∀ r, Ruled (w.updateCache t.cluster r) := fun r => h.mute (.same rfl rfl rfl)
    exact (hcached _).afterCallback ht hcan (by rw [hp]; rfl)
      (fun s hsuits => by rw [hp] at hsuits; exact hsuits) _ _ _
  | returned hp =>
    exact h.afterCallback ht hcan (by rw [hp]; rfl)
      (fun s hsuits => by rw [hp] at hsuits; exact hsuits) _ _ _
  | @acted s pass l name label a more fault rest v p hp hbegin =>
    have hdoing : Edits setup w (w.note (.doing name label)) := .aside (.note w rfl)
    have hedits := @begin_edits setup (w.note (.doing name label)) (.task id) a
    rw [hbegin] at hedits
    have hall := hdoing.trans hedits
    exact (h.edits hs hall).settleAction (.edits hall) ht hp _ _ _ _ _
  | resumed hp hresume =>
    have hedits := resume_edits hresume
    exact (h.edits hs hedits).settleAction (.edits hedits) ht hp _ _ _ _ _
  | woken hp hn hv =>
    subst hv
    have hseen : Ruled (w.updateTask id fun t => { t with notified := false }) :=
      h.mute (.updateTask w _ fun u _ => ⟨rfl, rfl, fun h => h, fun _ h => h, fun _ h => h⟩)
    have htook : Ruled ((w.updateTask id fun t => { t with notified := false }).takePending id
        t.cluster).2 := hseen.mute (.quiet rfl rfl ⟨[_], rfl, by simp [Mark.rules]⟩)
    refine htook.mute (.moveTask (t := { t with notified := false })
      (by simp [takePending, updateTask, World.note, ht])
      (fun s hsuits => ?_) fun s hs => ?_)
    · dsimp only at hsuits
      rw [hp] at hsuits
      exact hsuits
    · dsimp only
      rw [hp]
      exact hs
  | @received s payload store hp hn hnext =>
    have hread : Ruled ({ w with store }.note (.read id (.message payload))) :=
      h.mute (.quiet rfl rfl ⟨[_], rfl, by simp [Mark.rules]⟩)
    exact hread.receive ht hcan hp _
  | @closed s reading f store hp hn hnext hreading =>
    have hread : Ruled ({ w with store }.note (.read id reading)) :=
      h.mute (.quiet rfl rfl ⟨[_], rfl, by simp [Mark.rules]⟩)
    exact hread.endAttempt ht hend hcan _
  | retried hp hd =>
    have hcounted : Ruled (w.count .subscriptionRestarts) := h.mute (.count w _)
    exact hcounted.mute (.moveTask (t := t) (by exact ht)
      (fun s hsuits => by rw [hp] at hsuits; exact .inr hsuits) fun s hs => by cases hs)

/-- A cancelled task stops. -/
theorem stopTask (h : Ruled w) (ht : w.tasks[id]? = some t) (hend : t.position ≠ .ended) :
    Ruled (w.stopTask id t) := by
  have stops : ∀ {v : World}, Ruled v → v.tasks = w.tasks →
      Ruled ((v.closeStream t).finishTask id t .stopped) := fun {v} hv htv => by
    have hclosed : Ruled (v.closeStream t) ∧ (v.closeStream t).tasks = w.tasks := by
      unfold World.closeStream
      split
      · exact ⟨hv.mute (.same rfl rfl rfl), htv⟩
      · exact ⟨hv, htv⟩
    exact hclosed.1.finishTask (by rw [hclosed.2]; exact ht) rfl rfl hend rfl fun hs => by cases hs
  have ha := abandon_aside w (.task id)
  unfold World.stopTask
  dsimp only
  split
  · exact stops (h.mute (.aside (ha _))) (ha _).tasks
  · exact stops h rfl

theorem move {m : Move} (h : Ruled w) (hs : Supervised w) (hm : w.move setup m = some w') :
    Ruled w' := by
  have not_ended : ∀ {t : Task}, t.isEnded = false → t.position ≠ .ended := fun he hp => by
    rw [Task.isEnded_iff.2 hp] at he
    cases he
  cases move_cases hm with
  | edits he => exact h.edits hs he
  | cleared ht =>
    exact h.mute (.moveTask ht (fun s => Position.suits_clear.2) fun s hstream => by
      rwa [Position.stream?_clear] at hstream)
  | stopped ht he hc => exact h.stopTask ht (not_ended he)
  | went ht he hc hstep => exact h.taskStep hs ht he hc hstep

theorem of_reachable {setups : Nat → Setup} {f : Fleet} (hf : Fleet.Reachable setups f) {i : Nat}
    (hw : f.world? i = some w) : Ruled w := by
  have h : w.Supervised ∧ w.Ruled :=
    hf.keeps (P := fun w => w.Supervised ∧ w.Ruled) (fun store => ⟨.start store, .start store⟩)
      (fun w store h => ⟨h.1.rests (.quiet rfl rfl rfl rfl rfl), h.2.mute (.same rfl rfl rfl)⟩)
      (fun k w w' m h hm => ⟨h.1.move hm, h.2.move h.1 hm⟩) hw
  exact h.2

end Ruled

end World

end Muster
