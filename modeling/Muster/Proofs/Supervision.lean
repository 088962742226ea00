import Muster.Proofs.Runs
import Muster.Proofs.Steps

/-!
# One task per cluster

A cluster has a task exactly as long as it has listeners, and never two. The invariant
`Supervised` joins what is stored apart: the handles, the lists of listeners, the slots with their
generations, and the tasks themselves, those that were superseded among them. Each operation on
the subscriptions keeps it (`Supervised.attach`, `Supervised.detach`, `Supervised.close`), and so
does each step of a task, so it holds in every reachable state.
-/
namespace Muster

/-- What the supervision of a task goes by. -/
structure Charge where
  cluster : String
  generation : Nat
  cancelled : Bool
  ended : Bool

namespace Task

def charge (t : Task) : Charge := ⟨t.cluster, t.generation, t.cancelled, t.isEnded⟩

/-- The task has neither ended nor been cancelled. -/
def isLive (t : Task) : Bool := !t.isEnded && !t.cancelled

end Task

/-- Only the slot of the cluster is written, and only by its newest generation. -/
theorem World.get?_publish (w : World) (id : Nat) (t : Task) (s : Status) (c : String) :
    (w.publish id t s).slots.get? c = (w.slots.get? c).map fun slot =>
      if t.cluster = c then slot.publish t.generation s else slot := by
  unfold World.publish
  split
  · next h =>
    by_cases hc : t.cluster = c
    · subst hc; simp [h]
    · simp [hc]
  · next slot h =>
    split
    · by_cases hc : t.cluster = c
      · subst hc; simp [World.note, h]
      · simp [World.note, hc]
    · next hg =>
      by_cases hc : t.cluster = c
      · subst hc; simp [h, Slot.publish, hg]
      · simp [hc]

namespace World

def charge? (w : World) (id : Nat) : Option Charge := (w.tasks[id]?).map Task.charge

theorem charge?_of_task {w : World} {id : Nat} {t : Task} (h : w.tasks[id]? = some t) :
    w.charge? id = some t.charge := by
  simp [charge?, h]

/-- A task of this cluster and generation is under this number and has not ended. -/
def Serves (w : World) (id : Nat) (t : Task) : Prop :=
  ∃ cancelled, w.charge? id = some ⟨t.cluster, t.generation, cancelled, false⟩

theorem Serves.of_task {w : World} {id : Nat} {t : Task} (h : w.tasks[id]? = some t)
    (he : t.isEnded = false) : w.Serves id t :=
  ⟨t.cancelled, by rw [charge?_of_task h, Task.charge, he]⟩

theorem charge?_updateTask (w : World) (id j : Nat) (f : Task → Task) :
    (w.updateTask id f).charge? j =
      if id = j then (w.tasks[j]?).map fun t => (f t).charge else w.charge? j := by
  simp only [charge?, updateTask, List.getElem?_modify]
  by_cases h : id = j <;> simp [h, Function.comp_def]

theorem publish_others (w : World) (id : Nat) (t : Task) (s : Status) :
    (w.publish id t s).tasks = w.tasks ∧ (w.publish id t s).handles = w.handles ∧
      (w.publish id t s).listeners = w.listeners ∧ (w.publish id t s).closed = w.closed := by
  unfold publish
  split
  · exact ⟨rfl, rfl, rfl, rfl⟩
  · split <;> exact ⟨rfl, rfl, rfl, rfl⟩

/-! ## The invariant -/

structure Supervised (w : World) : Prop where
  /-- No task is newer than the slot of its cluster. -/
  slot : ∀ {id ch}, w.charge? id = some ch →
    ∃ s, w.slots.get? ch.cluster = some s ∧ ch.generation ≤ s.generation
  /-- A generation belongs to one task. -/
  one : ∀ {id id' ch ch'}, w.charge? id = some ch → w.charge? id' = some ch' →
    ch.cluster = ch'.cluster → ch.generation = ch'.generation → id = id'
  /-- The task of a handle is the newest, and its status tells whether it has ended. -/
  handle : ∀ {c id}, w.handles.get? c = some id → ∃ ch s, w.charge? id = some ch ∧
    ch.cluster = c ∧ ch.cancelled = false ∧ w.slots.get? c = some s ∧
    s.generation = ch.generation ∧ s.status.isTerminal = ch.ended
  /-- A live task is the one of the handle. -/
  held : ∀ {id ch}, w.charge? id = some ch → ch.ended = false → ch.cancelled = false →
    w.handles.get? ch.cluster = some id
  listened : w.closed = false → ∀ c, (w.handles.get? c).isSome ↔ w.listeners.of c ≠ []
  shut : w.closed = true → w.handles.entries = []

/-- All that the supervision goes by stays as it is. -/
structure Rests (w w' : World) : Prop where
  slots : w'.slots = w.slots
  handles : w'.handles = w.handles
  charge : ∀ id, w'.charge? id = w.charge? id
  of : ∀ c, w'.listeners.of c = w.listeners.of c
  closed : w'.closed = w.closed

namespace Rests

variable {w w' : World}

theorem quiet (hs : w'.slots = w.slots) (hh : w'.handles = w.handles) (ht : w'.tasks = w.tasks)
    (hl : w'.listeners = w.listeners) (hc : w'.closed = w.closed) : Rests w w' :=
  ⟨hs, hh, fun id => by simp [charge?, ht], fun c => by rw [hl], hc⟩

theorem refl (w : World) : Rests w w := quiet rfl rfl rfl rfl rfl

theorem trans {a b c : World} (h : Rests a b) (h' : Rests b c) : Rests a c :=
  ⟨h'.slots.trans h.slots, h'.handles.trans h.handles, fun id => (h'.charge id).trans (h.charge id),
    fun k => (h'.of k).trans (h.of k), h'.closed.trans h.closed⟩

theorem aside (h : Aside w w') : Rests w w' :=
  quiet h.slots h.handles h.tasks h.listeners h.closed

theorem note (w : World) (m : Mark) : Rests w (w.note m) := quiet rfl rfl rfl rfl rfl

theorem updateTask (w : World) (id : Nat) (f : Task → Task)
    (hf : ∀ t, w.tasks[id]? = some t → (f t).charge = t.charge) : Rests w (w.updateTask id f) := by
  refine ⟨rfl, rfl, fun j => ?_, fun c => rfl, rfl⟩
  rw [charge?_updateTask]
  by_cases h : id = j
  · subst h
    cases ht : w.tasks[id]? with
    | none => simp [charge?, ht]
    | some t => simp [charge?, ht, hf t ht]
  · rw [if_neg h]

theorem serves {id : Nat} {t : Task} (r : Rests w w') (h : w.Serves id t) : w'.Serves id t := by
  obtain ⟨cancelled, hch⟩ := h
  exact ⟨cancelled, (r.charge id).trans hch⟩

/-- A task that has not ended goes on. -/
theorem updateRunning {id : Nat} {t : Task} (h : w.Serves id t) (f : Task → Task)
    (hf : ∀ t : Task, t.isEnded = false → (f t).charge = t.charge) :
    Rests w (w.updateTask id f) := by
  obtain ⟨cancelled, hch⟩ := h
  refine updateTask w id f fun u hu => hf u ?_
  rw [charge?_of_task hu] at hch
  exact congrArg Charge.ended (Option.some.inj hch)

theorem moveTask {id : Nat} {t : Task} (h : w.Serves id t) {p : Position} (hp : p ≠ .ended) :
    Rests w (w.moveTask id p) := by
  refine updateRunning h _ fun u hu => ?_
  have hp : ({ u with position := p } : Task).isEnded = false := Task.isEnded_of_ne hp
  simp [Task.charge, hp, hu]

theorem takePending (w : World) (id : Nat) (c : String) : Rests w (w.takePending id c).2 :=
  ⟨rfl, rfl, fun _ => rfl, fun _ => by simp [World.takePending, World.note], rfl⟩

theorem closeStream (w : World) (t : Task) : Rests w (w.closeStream t) := by
  unfold World.closeStream
  split
  · exact quiet rfl rfl rfl rfl rfl
  · exact .refl w

end Rests

namespace Supervised

variable {setup : Setup} {w w' : World} {id : Nat} {t : Task} {ch : Charge}

theorem rests (h : Supervised w) (r : Rests w w') : Supervised w' where
  slot hc := by
    rw [r.slots]
    exact h.slot (r.charge _ ▸ hc)
  one hc hc' := h.one (r.charge _ ▸ hc) (r.charge _ ▸ hc')
  handle hh := by
    rw [r.slots]
    simp only [r.charge]
    exact h.handle (r.handles ▸ hh)
  held hc := by
    rw [r.handles]
    exact h.held (r.charge _ ▸ hc)
  listened hcl c := by
    rw [r.handles, r.of]
    exact h.listened (r.closed ▸ hcl) c
  shut hcl := by
    rw [r.handles]
    exact h.shut (r.closed ▸ hcl)

theorem start (store : Memory) : Supervised { store } where
  slot hc := by simp [charge?] at hc
  one hc := by simp [charge?] at hc
  handle hh := by cases hh
  held hc := by simp [charge?] at hc
  listened _ c := by simp [Listeners.of]
  shut hcl := by cases hcl

/-! ## Operations on the subscriptions -/

theorem charge?_append {ch' : Charge} (h : ({ w with tasks := w.tasks ++ [t] } : World).charge? id =
    some ch') : w.charge? id = some ch' ∨ id = w.tasks.length ∧ ch' = t.charge := by
  simp only [charge?, List.getElem?_append] at h ⊢
  split at h
  · exact .inl h
  · next hge =>
    obtain ⟨u, hu, rfl⟩ := Option.map_eq_some_iff.1 h
    have hlt := (List.getElem?_eq_some_iff.1 hu).1
    have hid : id = w.tasks.length := by
      simp only [List.length_singleton] at hlt
      omega
    subst hid
    simp only [Nat.sub_self, List.getElem?_cons_zero, Option.some.injEq] at hu
    exact .inr ⟨rfl, by rw [hu]⟩

/-- A new task takes the place of a cluster's last one, which is not live any more. -/
theorem started (h : Supervised w) {c : String} (listeners : Listeners Listener) (slot : Slot)
    (t : Task) (hopen : w.closed = false)
    (hgone : ∀ {id ch}, w.charge? id = some ch → ch.cluster = c → ch.ended = false →
      ch.cancelled = true)
    (hmine : listeners.of c ≠ []) (hothers : ∀ c', c ≠ c' → listeners.of c' = w.listeners.of c')
    (hslot : ∀ s, w.slots.get? c = some s → s.generation < slot.generation)
    (hcharge : t.charge = ⟨c, slot.generation, false, slot.status.isTerminal⟩) :
    Supervised { w with
      listeners, slots := w.slots.insert c slot, tasks := w.tasks ++ [t]
      handles := w.handles.insert c w.tasks.length } := by
  have hold : ∀ {id ch}, w.charge? id = some ch → ch.cluster = c →
      ch.generation < slot.generation := by
    intro id ch hch hc
    obtain ⟨s, hs, hle⟩ := h.slot hch
    exact Nat.lt_of_le_of_lt hle (hslot s (hc ▸ hs))
  have hsplit : ∀ {id ch}, ({ w with tasks := w.tasks ++ [t] } : World).charge? id = some ch →
      w.charge? id = some ch ∨ id = w.tasks.length ∧ ch = t.charge := charge?_append
  have hkept : ∀ {id ch}, w.charge? id = some ch →
      ({ w with tasks := w.tasks ++ [t] } : World).charge? id = some ch := by
    intro id ch hch
    obtain ⟨u, hu, rfl⟩ := Option.map_eq_some_iff.1 hch
    have hlt := (List.getElem?_eq_some_iff.1 hu).1
    simp only [charge?, List.getElem?_append_left hlt, hu, Option.map_some]
  have hnew : ({ w with tasks := w.tasks ++ [t] } : World).charge? w.tasks.length =
      some t.charge := by
    simp [charge?]
  rw [hcharge] at hnew
  constructor
  case slot =>
    intro id ch hch
    rw [Table.get?_insert]
    rcases hsplit hch with hch | ⟨rfl, rfl⟩
    · by_cases hc : c = ch.cluster
      · rw [if_pos hc]
        exact ⟨slot, rfl, Nat.le_of_lt (hold hch hc.symm)⟩
      · rw [if_neg hc]
        exact h.slot hch
    · rw [hcharge]
      exact ⟨slot, if_pos rfl, Nat.le_refl _⟩
  case one =>
    intro id id' ch ch' hch hch' hc hg
    rcases hsplit hch with hch | ⟨rfl, rfl⟩ <;> rcases hsplit hch' with hch' | ⟨rfl, rfl⟩
    · exact h.one hch hch' hc hg
    · rw [hcharge] at hc hg
      exact absurd hg (Nat.ne_of_lt (hold hch hc))
    · rw [hcharge] at hc hg
      exact absurd hg (Nat.ne_of_gt (hold hch' hc.symm))
    · rfl
  case handle =>
    intro c' id hh
    rw [Table.get?_insert] at hh
    rw [Table.get?_insert]
    by_cases hc : c = c'
    · rw [if_pos hc] at hh
      rw [if_pos hc]
      cases hh
      exact ⟨_, slot, hnew, hc, rfl, rfl, rfl, rfl⟩
    · rw [if_neg hc] at hh
      rw [if_neg hc]
      obtain ⟨ch, s, hch, hrest⟩ := h.handle hh
      exact ⟨ch, s, hkept hch, hrest⟩
  case held =>
    intro id ch hch he hcan
    rw [Table.get?_insert]
    rcases hsplit hch with hch | ⟨rfl, rfl⟩
    · by_cases hc : c = ch.cluster
      · rw [hgone hch hc.symm he] at hcan
        cases hcan
      · rw [if_neg hc]
        exact h.held hch he hcan
    · rw [hcharge]
      exact if_pos rfl
  case listened =>
    intro _ c'
    rw [Table.get?_insert]
    by_cases hc : c = c'
    · subst hc
      simpa using hmine
    · rw [if_neg hc]
      show _ ↔ listeners.of c' ≠ []
      rw [hothers c' hc]
      exact h.listened hopen c'
  case shut =>
    intro hcl
    rw [hopen] at hcl
    cases hcl

/-- A listener joins the task of a cluster, or there is no live one. -/
theorem joinable?_cases (h : Supervised w) (c : String) :
    (∃ id, w.joinable? c = some id ∧ w.handles.get? c = some id) ∨
    (w.joinable? c = none ∧ ∀ {id ch}, w.charge? id = some ch → ch.cluster = c →
      ch.ended = false → ch.cancelled = true) := by
  cases hj : w.joinable? c with
  | some id =>
    refine .inl ⟨id, rfl, ?_⟩
    unfold joinable? running? at hj
    split at hj
    · cases hj
    · exact (Option.filter_eq_some_iff.1 hj).1
  | none =>
    refine .inr ⟨rfl, fun {id ch} hch hc he => ?_⟩
    cases hcan : ch.cancelled with
    | true => rfl
    | false =>
      have hheld := h.held hch he hcan
      obtain ⟨ch', s, hch', -, -, hs, -, hterm⟩ := h.handle hheld
      have hsame : ch' = ch := Option.some.inj (hch'.symm.trans hch)
      subst hsame
      obtain ⟨t, ht, rfl⟩ := Option.map_eq_some_iff.1 hch
      have hstatus : (w.status? c).any Status.isTerminal = false := by
        simp [status?, ← hc, hs, hterm, he]
      have hrunning : w.running? c = some id := by
        have ht' : t.isEnded = false := he
        simp [running?, ← hc, hheld, hasEnded, ht, ht']
      simp [joinable?, hstatus, hrunning] at hj

theorem attach (h : Supervised w) (c : String) (l : Listener) :
    Supervised (w.attach setup c l).2 := by
  unfold World.attach
  split
  · exact h
  · next hopen =>
    have hopen : w.closed = false := by simpa using hopen
    rcases h.joinable?_cases c with ⟨id, hj, hh⟩ | ⟨hj, hgone⟩
    · rw [hj]
      have hlist : Supervised { w with listeners := (w.listeners.enqueue c l).add c l } :=
        { h with
          listened := fun _ c' => by
            by_cases hc : c = c'
            · subst hc
              simp [hh]
            · simpa [hc] using h.listened hopen c'
          shut := fun hcl => by simp [hopen] at hcl }
      exact hlist.rests ((Rests.note _ _).trans (.updateTask _ _ _ fun t _ => rfl))
    · rw [hj]
      have hspawned := h.started (w.listeners.add c l) ((w.slots.get? c).getD {}).begin {
          cluster := c, generation := ((w.slots.get? c).getD {}).begin.generation
          backoff := Backoff.ofPolicy setup.config.restart }
        hopen hgone (by simp) (fun c' hc => by simp [hc]) (fun s hs => by simp [hs, Slot.begin]) rfl
      exact hspawned.rests (.quiet rfl rfl rfl rfl rfl)

/-- The last listener of a cluster is gone, and its task is cancelled. -/
theorem released (h : Supervised w) {c : String} (hslots : w'.slots = w.slots)
    (hhandles : w'.handles = w.handles.erase c) (hclosed : w'.closed = w.closed)
    (hmine : w'.listeners.of c = [])
    (hothers : ∀ c', c ≠ c' → w'.listeners.of c' = w.listeners.of c')
    (hcharge : ∀ id, w'.charge? id = (w.charge? id).map fun ch =>
      if w.handles.get? c = some id then { ch with cancelled := true } else ch) :
    Supervised w' := by
  have hfrom : ∀ {id ch'}, w'.charge? id = some ch' → ∃ ch, w.charge? id = some ch ∧
      ch'.cluster = ch.cluster ∧ ch'.generation = ch.generation ∧ ch'.ended = ch.ended ∧
      (ch'.cancelled = false → ch.cancelled = false ∧ w.handles.get? c ≠ some id) := by
    intro id ch' hch'
    rw [hcharge] at hch'
    obtain ⟨ch, hch, rfl⟩ := Option.map_eq_some_iff.1 hch'
    refine ⟨ch, hch, ?_⟩
    by_cases hid : w.handles.get? c = some id <;> simp [hid]
  constructor
  case slot =>
    intro id ch' hch'
    obtain ⟨ch, hch, hc, hg, -⟩ := hfrom hch'
    rw [hslots, hc, hg]
    exact h.slot hch
  case one =>
    intro id id' a a' ha ha' hc hg
    obtain ⟨b, hb, hbc, hbg, -⟩ := hfrom ha
    obtain ⟨b', hb', hbc', hbg', -⟩ := hfrom ha'
    exact h.one hb hb' (hbc ▸ hbc' ▸ hc) (hbg ▸ hbg' ▸ hg)
  case handle =>
    intro c' id hh
    rw [hhandles, Table.get?_erase] at hh
    by_cases hc : c = c'
    · rw [if_pos hc] at hh
      cases hh
    · rw [if_neg hc] at hh
      obtain ⟨ch, s, hch, hclus, hcan, hrest⟩ := h.handle hh
      have hid : w.handles.get? c ≠ some id := by
        intro hc'
        obtain ⟨a, -, ha, hac, -⟩ := h.handle hc'
        cases hch.symm.trans ha
        exact hc (hac.symm.trans hclus)
      exact ⟨ch, s, by rw [hcharge, hch, Option.map_some, if_neg hid], hclus, hcan, hslots ▸ hrest⟩
  case held =>
    intro id ch' hch' he hcan
    obtain ⟨ch, hch, hc, -, hend, hlive⟩ := hfrom hch'
    obtain ⟨hcan, hid⟩ := hlive hcan
    have hheld := h.held hch (hend ▸ he) hcan
    rw [hhandles, Table.get?_erase, hc]
    by_cases hcc : c = ch.cluster
    · exact absurd (hcc ▸ hheld) hid
    · rw [if_neg hcc]
      exact hheld
  case listened =>
    intro hcl c'
    rw [hhandles, Table.get?_erase]
    by_cases hc : c = c'
    · subst hc
      simp [hmine]
    · rw [if_neg hc, hothers c' hc]
      exact h.listened (hclosed ▸ hcl) c'
  case shut =>
    intro hcl
    have hnone := h.shut (hclosed ▸ hcl)
    rw [hhandles]
    simp [Table.erase, hnone]

theorem charge?_cancel (w : World) (id j : Nat) : (w.cancel id).charge? j =
    (w.charge? j).map fun ch => if some id = some j then { ch with cancelled := true } else ch := by
  have hnote : (w.cancel id).charge? j =
      (w.updateTask id fun t => { t with cancelled := true }).charge? j := rfl
  rw [hnote, charge?_updateTask]
  by_cases h : id = j <;> simp [h, charge?] <;> rfl

theorem detach (h : Supervised w) (c : String) (l : Listener) :
    Supervised (w.detach c l).2.2 := by
  unfold World.detach
  by_cases hl : l ∈ w.listeners.of c
  · have hfst := Listeners.remove_fst hl
    have hof := Listeners.of_remove hl
    generalize hr : w.listeners.remove c l = r at hfst hof
    obtain ⟨left, listeners⟩ := r
    cases hfst
    cases hleft : (w.listeners.of c).erase l with
    | nil =>
      have hmine : listeners.of c = [] := by simpa [hleft] using hof c
      have hothers : ∀ c', c ≠ c' → listeners.of c' = w.listeners.of c' := fun c' hc => by
        simpa [hc] using hof c'
      cases hh : w.handles.get? c with
      | none =>
        refine h.released (c := c) rfl rfl rfl hmine hothers fun id => ?_
        simp [hh]
        rfl
      | some id =>
        refine h.released (c := c) rfl rfl rfl hmine hothers fun j => ?_
        rw [hh]
        exact charge?_cancel _ id j
    | cons a more =>
      have hsame : Supervised { w with listeners } :=
        { h with
          listened := fun hcl c' => by
            show _ ↔ listeners.of c' ≠ []
            rw [hof]
            by_cases hc : c = c'
            · subst hc
              have hhad := List.ne_nil_of_mem hl
              simpa [hleft, hhad] using h.listened hcl c
            · rw [if_neg hc]
              exact h.listened hcl c' }
      exact hsame.rests (.note _ _)
  · rw [Listeners.remove_of_not_mem hl]
    exact h

theorem close (h : Supervised w) : Supervised w.close.2 := by
  have hcharge : ∀ {id ch'}, w.close.2.charge? id = some ch' → ∃ ch, w.charge? id = some ch ∧
      ch' = { ch with cancelled := true } := by
    intro id ch' hch'
    simp only [charge?, World.close, cancelAll, List.getElem?_map, Option.map_map] at hch'
    obtain ⟨t, ht, rfl⟩ := Option.map_eq_some_iff.1 hch'
    exact ⟨t.charge, charge?_of_task ht, rfl⟩
  constructor
  case slot =>
    intro id ch' hch'
    obtain ⟨ch, hch, rfl⟩ := hcharge hch'
    have hslot := h.slot hch
    exact hslot
  case one =>
    intro id id' a a' ha ha' hc hg
    obtain ⟨b, hb, rfl⟩ := hcharge ha
    obtain ⟨b', hb', rfl⟩ := hcharge ha'
    exact h.one hb hb' hc hg
  case handle =>
    intro c id hh
    cases hh
  case held =>
    intro id ch' hch' he hcan
    obtain ⟨ch, -, rfl⟩ := hcharge hch'
    cases hcan
  case listened =>
    intro hcl
    cases hcl
  case shut => exact fun _ => rfl

theorem edits (h : Supervised w) (e : Edits setup w w') : Supervised w' := by
  induction e with
  | aside ha => exact h.rests (.aside ha)
  | attach w c l => exact h.attach c l
  | detach w c name => exact h.detach c _
  | close w => exact h.close
  | trans _ _ ih ih' => exact ih' (ih h)

/-! ## Steps of a task -/

/-- A task that has not ended writes its status; it ends exactly with the last one. -/
theorem wrote (h : Supervised w) {cancelled : Bool}
    (hch : w.charge? id = some ⟨t.cluster, t.generation, cancelled, false⟩) (s : Status)
    (hslots : w'.slots = (w.publish id t s).slots)
    (hhandles : w'.handles = w.handles) (hclosed : w'.closed = w.closed)
    (hof : ∀ c, w'.listeners.of c = w.listeners.of c)
    (hcharge : ∀ j, w'.charge? j =
      if id = j then some ⟨t.cluster, t.generation, cancelled, s.isTerminal⟩ else w.charge? j) :
    Supervised w' := by
  have hfrom : ∀ {j a'}, w'.charge? j = some a' → ∃ a, w.charge? j = some a ∧
      a'.cluster = a.cluster ∧ a'.generation = a.generation ∧ a'.cancelled = a.cancelled ∧
      (a'.ended = false → a.ended = false) := by
    intro j a' ha'
    rw [hcharge] at ha'
    by_cases hj : id = j
    · subst hj
      rw [if_pos rfl] at ha'
      cases ha'
      exact ⟨_, hch, rfl, rfl, rfl, fun _ => rfl⟩
    · rw [if_neg hj] at ha'
      exact ⟨a', ha', rfl, rfl, rfl, fun h => h⟩
  have hgen : ∀ {g : Nat} {slot : Slot}, (slot.publish g s).generation = slot.generation := by
    intro g slot
    unfold Slot.publish
    split <;> rfl
  constructor
  case slot =>
    intro j a' ha'
    obtain ⟨a, ha, hc, hg, -⟩ := hfrom ha'
    obtain ⟨slot, hslot, hle⟩ := h.slot ha
    rw [hslots, get?_publish, hc, hg, hslot]
    refine ⟨_, rfl, ?_⟩
    split
    · rw [hgen]
      exact hle
    · exact hle
  case one =>
    intro j j' a a' ha ha' hc hg
    obtain ⟨b, hb, hbc, hbg, -⟩ := hfrom ha
    obtain ⟨b', hb', hbc', hbg', -⟩ := hfrom ha'
    exact h.one hb hb' (hbc ▸ hbc' ▸ hc) (hbg ▸ hbg' ▸ hg)
  case handle =>
    intro c j hh
    obtain ⟨a, slot, ha, hac, hcan, hslot, hg, hterm⟩ := h.handle (hhandles ▸ hh)
    by_cases hj : id = j
    · -- The task is the newest one, so its write goes through.
      subst hj
      cases hch.symm.trans ha
      refine ⟨⟨t.cluster, t.generation, cancelled, s.isTerminal⟩, slot.publish t.generation s,
        by rw [hcharge, if_pos rfl], hac, hcan,
        by rw [hslots, get?_publish, hslot, Option.map_some, if_pos hac], ?_, ?_⟩
      · rw [hgen]
        exact hg
      · have hg : slot.generation = t.generation := hg
        simp [Slot.publish, hg]
    · refine ⟨a, slot, by rw [hcharge, if_neg hj, ha], hac, hcan, ?_, hg, hterm⟩
      rw [hslots, get?_publish, hslot, Option.map_some]
      split
      · next hc =>
        -- Another task of the cluster has an older generation and writes nothing.
        have hne : slot.generation ≠ t.generation := fun heq =>
          hj (h.one hch ha (hc.trans hac.symm) (heq.symm.trans hg))
        simp [Slot.publish, hne]
      · rfl
  case held =>
    intro j a' ha' hend hcan
    obtain ⟨a, ha, hc, -, hcan', hend'⟩ := hfrom ha'
    rw [hhandles, hc]
    exact h.held ha (hend' hend) (hcan' ▸ hcan)
  case listened =>
    intro hcl c
    rw [hhandles, hof]
    exact h.listened (hclosed ▸ hcl) c
  case shut =>
    intro hcl
    rw [hhandles]
    exact h.shut (hclosed ▸ hcl)

theorem finishTask (h : Supervised w) (ht : w.Serves id t) {s : Status}
    (hs : s.isTerminal = true) : Supervised (w.finishTask id t s) := by
  obtain ⟨cancelled, hch⟩ := ht
  have hothers := publish_others w id t s
  refine h.wrote hch s rfl hothers.2.1 hothers.2.2.2 (fun c => ?_) fun j => ?_
  · rw [← hothers.2.2.1]
    rfl
  · have hmove : (w.finishTask id t s).charge? j =
        ((w.publish id t s).updateTask id fun t =>
          { t with position := .ended }).charge? j := rfl
    rw [hmove, charge?_updateTask, charge?, hothers.1]
    by_cases hj : id = j
    · subst hj
      obtain ⟨u, hu, hcharge⟩ := Option.map_eq_some_iff.1 hch
      simp only [Task.charge, Charge.mk.injEq] at hcharge
      simp [hu, hs, hcharge, Task.charge, Task.isEnded]
    · simp [hj, charge?]

/-- A task that has not ended writes a status that is not its last. -/
theorem publish (h : Supervised w) (ht : w.Serves id t) {s : Status} (hs : s.isTerminal = false) :
    Supervised (w.publish id t s) := by
  obtain ⟨cancelled, hch⟩ := ht
  have hothers := publish_others w id t s
  refine h.wrote hch s rfl hothers.2.1 hothers.2.2.2 (fun c => by rw [hothers.2.2.1])
    fun j => ?_
  rw [charge?, hothers.1]
  by_cases hj : id = j
  · subst hj
    rw [if_pos rfl, hs]
    exact hch
  · rw [if_neg hj, charge?]

end Supervised

/-- Whatever calls do, a task that runs stays the same task and does not end. -/
theorem Edits.serves {setup : Setup} {w w' : World} {id : Nat} {t : Task} (e : Edits setup w w')
    (h : w.Serves id t) : w'.Serves id t := by
  have flagged : ∀ {v : World} (f : Task → Task) (j : Nat), v.Serves id t →
      (∀ u, ∃ cancelled, (f u).charge = { u.charge with cancelled }) →
      (v.updateTask j f).Serves id t := by
    intro v f j ⟨cancelled, hch⟩ hf
    rw [Serves, charge?_updateTask]
    by_cases hj : j = id
    · subst hj
      obtain ⟨u, hu, hcharge⟩ := Option.map_eq_some_iff.1 hch
      obtain ⟨c', hc'⟩ := hf u
      exact ⟨c', by simp [hu, hc', hcharge]⟩
    · rw [if_neg hj]
      exact ⟨cancelled, hch⟩
  induction e with
  | aside ha => exact (Rests.aside ha).serves h
  | attach w c l =>
    unfold World.attach
    split
    · exact h
    · split
      · exact flagged _ _ h fun u => ⟨u.cancelled, rfl⟩
      · obtain ⟨cancelled, hch⟩ := h
        obtain ⟨u, hu, hcharge⟩ := Option.map_eq_some_iff.1 hch
        have hlt := (List.getElem?_eq_some_iff.1 hu).1
        refine ⟨cancelled, ?_⟩
        simp only [charge?, spawn, note, count, List.getElem?_append_left hlt, hu, Option.map_some,
          hcharge]
  | detach w c name =>
    unfold World.detach
    split
    · exact h
    · dsimp only
      split
      · exact h
      · exact flagged _ _ h fun u => ⟨true, rfl⟩
    · exact h
  | close w =>
    obtain ⟨cancelled, hch⟩ := h
    obtain ⟨u, hu, hcharge⟩ := Option.map_eq_some_iff.1 hch
    simp only [Task.charge, Charge.mk.injEq] at hcharge
    refine ⟨true, ?_⟩
    simp only [charge?, World.close, cancelAll, List.getElem?_map, hu, Option.map_some, Task.charge,
      Option.some.injEq, Charge.mk.injEq]
    exact ⟨hcharge.1, hcharge.2.1, trivial, hcharge.2.2.2⟩
  | trans _ _ ih ih' => exact ih' (ih h)

namespace Supervised

variable {setup : Setup} {w w' : World} {id : Nat} {t : Task}

theorem acts (a : Acts id t w w') (h : Supervised w) (ht : w.Serves id t) :
    Supervised w' ∧ w'.Serves id t := by
  have rested : ∀ {v v' : World}, Rests v v' → Supervised v → v.Serves id t →
      Supervised v' ∧ v'.Serves id t := fun r h ht => ⟨h.rests r, r.serves ht⟩
  induction a with
  | aside ha => exact rested (.aside ha) h ht
  | note w hm => exact rested (.note w _) h ht
  | update w f hc hg hcan he =>
    refine rested (.updateRunning ht f fun u hu => ?_) h ht
    simp only [Task.charge, hc, hg, hcan, he u hu, hu]
  | publish w hs =>
    refine ⟨h.publish ht hs, ?_⟩
    rw [Serves, charge?, (publish_others w _ _ _).1]
    exact ht
  | took w => exact rested (.takePending w id t.cluster) h ht
  | store w store =>
    have hr : Rests w { w with store } := .quiet rfl rfl rfl rfl rfl
    exact rested hr h ht
  | trans _ _ ih ih' =>
    obtain ⟨h', ht'⟩ := ih h ht
    exact ih' h' ht'

theorem finishes (h : Supervised w) (ht : w.Serves id t) (hw : Finishes id t w w') :
    Supervised w' := by
  cases hw with
  | on ha => exact (acts ha h ht).1
  | off ha hs =>
    obtain ⟨h', ht'⟩ := acts ha h ht
    exact h'.finishTask ht' hs

theorem turn (h : Supervised w) (ht : w.Serves id t) (hw : Turn setup id t w w') :
    Supervised w' := by
  cases hw with
  | own hf => exact h.finishes ht hf
  | called he hp => exact (h.edits he).rests (.moveTask (he.serves ht) hp)

theorem move {m : Move} (h : Supervised w) (hm : w.move setup m = some w') : Supervised w' := by
  cases move_cases hm with
  | edits he => exact h.edits he
  | @cleared id t ht =>
    refine h.rests (.updateTask w id _ fun u hu => ?_)
    cases ht.symm.trans hu
    have hend : ({ t with position := t.position.clear } : Task).isEnded = t.isEnded := by
      rw [Bool.eq_iff_iff, Task.isEnded_iff, Task.isEnded_iff]
      exact Position.clear_eq_ended
    simp [Task.charge, hend]
  | @stopped id t ht he hc => exact h.finishes (.of_task ht he) (@stopTask_finishes id t w)
  | went ht he hc hstep => exact h.turn (.of_task ht he) (hstep.turn he)

/-- A call that attaches a listener succeeds only if the cluster then has a live task. -/
theorem attach_ok (h : Supervised w) {c : String} {l : Listener}
    (hok : (w.attach setup c l).1 = .ok ()) : l ∈ (w.attach setup c l).2.listeners.of c ∧
      ∃ id t, (w.attach setup c l).2.handles.get? c = some id ∧
        (w.attach setup c l).2.tasks[id]? = some t ∧ t.cluster = c ∧ t.isLive = true := by
  unfold World.attach at hok ⊢
  split at hok
  · cases hok
  · next hopen =>
    rw [if_neg hopen]
    cases hj : w.joinable? c with
    | some id =>
      have hh : w.running? c = some id := by
        unfold joinable? at hj
        split at hj
        · cases hj
        · exact hj
      obtain ⟨hh, hrun⟩ := Option.filter_eq_some_iff.1 hh
      obtain ⟨ch, s, hch, hc, hcan, -⟩ := h.handle hh
      obtain ⟨t, ht, rfl⟩ := Option.map_eq_some_iff.1 hch
      have he : t.isEnded = false := by simpa [hasEnded, ht] using hrun
      have hcan : t.cancelled = false := hcan
      refine ⟨by simp [note, updateTask], id, { t with notified := true }, hh, ?_, hc, ?_⟩
      · simp [note, updateTask, ht]
      · show (!t.isEnded && !t.cancelled) = true
        simp [he, hcan]
    | none =>
      refine ⟨by simp [note, spawn, count], w.tasks.length, {
          cluster := c, generation := ((w.slots.get? c).getD {}).begin.generation
          backoff := Backoff.ofPolicy setup.config.restart }, ?_, ?_, rfl, rfl⟩
      · simp [note, spawn, count]
      · simp [note, spawn, count]

theorem of_reachable {setups : Nat → Setup} {f : Fleet} (hf : Fleet.Reachable setups f) {i : Nat}
    (hw : f.world? i = some w) : Supervised w :=
  hf.keeps start (fun _ _ h => h.rests (.quiet rfl rfl rfl rfl rfl)) (fun _ _ _ _ h => h.move) hw

end Supervised

/-! ## A shutdown is for good -/

section
variable {setup : Setup} {w w' : World}

theorem Edits.closed (e : Edits setup w w') (h : w.closed = true) : w'.closed = true := by
  induction e with
  | aside ha => exact ha.closed.trans h
  | attach w c l => rwa [World.attach, if_pos h]
  | detach w c name =>
    unfold World.detach
    split
    · exact h
    · dsimp only
      split <;> exact h
    · exact h
  | close w => rfl
  | trans _ _ ih ih' => exact ih' (ih h)

theorem Acts.closed {id : Nat} {t : Task} (a : Acts id t w w') (h : w.closed = true) :
    w'.closed = true := by
  induction a with
  | aside ha => exact ha.closed.trans h
  | note => exact h
  | update => exact h
  | publish w => exact (publish_others w _ _ _).2.2.2.trans h
  | took => exact h
  | store => exact h
  | trans _ _ ih ih' => exact ih' (ih h)

theorem Finishes.closed {id : Nat} {t : Task} (hw : Finishes id t w w')
    (h : w.closed = true) : w'.closed = true := by
  cases hw with
  | on ha => exact ha.closed h
  | off ha => exact (publish_others _ _ _ _).2.2.2.trans (ha.closed h)

theorem Turn.closed {id : Nat} {t : Task} (hw : Turn setup id t w w') (h : w.closed = true) :
    w'.closed = true := by
  cases hw with
  | own hf => exact hf.closed h
  | called he => exact he.closed h

theorem closed_of_move {m : Move} (h : w.closed = true) (hm : w.move setup m = some w') :
    w'.closed = true := by
  cases move_cases hm with
  | edits he => exact he.closed h
  | cleared => exact h
  | @stopped id t => exact (@stopTask_finishes id t w).closed h
  | went ht he hc hstep => exact (hstep.turn he).closed h

end

end World

/-! ## Main results -/

namespace Fleet

variable {setups : Nat → Setup} {f : Fleet} {i : Nat} {w : World}

/-- In every reachable state of a client, for every cluster: while the client is open, there is a
handle exactly if there are listeners; a task that has neither ended nor been cancelled is the one
of the handle, and none is newer; a call that attaches a listener and answers without a fault,
whatever it did before, leaves the listener attached and a live task behind; after a shutdown there
are no handles, in this state and in all that follow. -/
theorem one_task_per_cluster (hf : Reachable setups f) (hw : f.world? i = some w) (c : String) :
    (w.closed = false → ((w.handles.get? c).isSome = true ↔ w.listeners.of c ≠ [])) ∧
    (∀ id t, w.tasks[id]? = some t → t.cluster = c → t.isLive = true →
      w.handles.get? c = some id ∧ (w.slots.get? c).map (·.generation) = some t.generation ∧
      ∀ (id' : Nat) (t' : Task), w.tasks[id']? = some t' → t'.cluster = c → t'.generation ≤ t.generation) ∧
    (∀ u l, World.Aside w u → (u.attach (setups i) c l).1 = .ok () →
      l ∈ (u.attach (setups i) c l).2.listeners.of c ∧
      ∃ id t, (u.attach (setups i) c l).2.handles.get? c = some id ∧
        (u.attach (setups i) c l).2.tasks[id]? = some t ∧ t.cluster = c ∧ t.isLive = true) ∧
    (w.closed = true → ∀ g v, Reaches setups f g → g.world? i = some v →
      v.closed = true ∧ v.handles.entries = []) := by
  have hs := World.Supervised.of_reachable hf hw
  refine ⟨fun hopen => hs.listened hopen c, fun id t ht hc hlive => ?_, fun u l hu hok => ?_,
    fun hclosed g v hg hv => ?_⟩
  · obtain ⟨he, hcan⟩ : t.isEnded = false ∧ t.cancelled = false := by
      simpa [Task.isLive] using hlive
    have hheld := hs.held (World.charge?_of_task ht) he hcan
    obtain ⟨ch, s, hch, -, -, hslot, hg, -⟩ := hs.handle hheld
    cases (World.charge?_of_task ht).symm.trans hch
    have hheld : w.handles.get? t.cluster = some id := hheld
    have hslot : w.slots.get? t.cluster = some s := hslot
    have hg : s.generation = t.generation := hg
    subst hc
    refine ⟨hheld, by simp [hslot, hg], fun id' t' ht' hc' => ?_⟩
    obtain ⟨s', hs', hle⟩ := hs.slot (World.charge?_of_task ht')
    have hs' : w.slots.get? t'.cluster = some s' := hs'
    rw [hc', hslot] at hs'
    cases hs'
    exact hg ▸ hle
  · exact (hs.rests (.aside hu)).attach_ok hok
  · have hv' : v.closed = true := by
      refine hg.keeps (P := fun v => v.closed = true) (fun _ _ h => h)
        (fun _ _ _ _ h hm => World.closed_of_move h hm) (fun u hu => ?_) hv
      rw [hw] at hu
      exact Option.some.inj hu ▸ hclosed
    exact ⟨hv', (World.Supervised.of_reachable (hf.reaches hg) hv).shut hv'⟩

/-- After one listener was attached and its task has subscribed, that task has the handle. -/
theorem one_task_after_attach : ∃ f w, Reachable (fun _ => .plain "me@here") f ∧
    f.world? 0 = some w ∧ w.listeners.of "c" = [.user "l"] ∧ (w.handles.get? "c").isSome = true ∧
    ∃ t, w.tasks[0]? = some t ∧ t.isLive = true ∧ w.handles.get? "c" = some 0 := by
  obtain ⟨f, w, hf, hw, hp⟩ := exists_of_run (fun _ => .plain "me@here") .usual 1 0
    [(0, .ask 0 (.attach "c" "l")), (0, .step (.task 0))]
    (fun w => !w.closed && w.listeners.of "c" == [.user "l"] &&
      (w.tasks[0]?).any fun t => t.cluster == "c" && t.isLive) rfl (by decide +kernel)
  simp only [Bool.and_eq_true, Bool.not_eq_true', beq_iff_eq] at hp
  obtain ⟨⟨hopen, hof⟩, htask⟩ := hp
  obtain ⟨hlisten, hlive, -⟩ := one_task_per_cluster hf hw "c"
  cases ht : w.tasks[0]? with
  | none => simp [ht] at htask
  | some t =>
    obtain ⟨hc, hl⟩ : t.cluster = "c" ∧ t.isLive = true := by simpa [ht] using htask
    exact ⟨f, w, hf, hw, hof, (hlisten hopen).2 (by simp [hof]), t, ht, hl, (hlive 0 t ht hc hl).1⟩

end Fleet

end Muster
