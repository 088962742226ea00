import Muster.Proofs.History

/-!
# Attempts

What an attempt of a task owes to its listeners, and what it has done, both told by the record
alone. The agenda of an attempt are the calls that are due: after subscribing, one for every
listener; after a message was taken, one for each listener that joined before, and then one with
the message for every listener; and one for each listener that joined in between. `Lawful` says
when a mark may be made, so `Laws` is the grammar of what a task does.
-/
namespace Muster

/-- A call of a listener: who, and why. -/
abbrev Visit := Listener × Hook

inductive Phase where
  /-- No attempt is under way. -/
  | over
  /-- No listener is being called. -/
  | between
  | within (visit : Visit)
deriving DecidableEq, Repr

/-- An attempt as far as it has come. -/
structure Attempt where
  phase : Phase := .over
  /-- How many items had been sent when the stream was opened. -/
  start : Nat := 0
  /-- The calls of the pass after subscribing. -/
  first : List Visit := []
  /-- All calls that were due so far, in order. -/
  agenda : List Visit := []
  /-- The calls that were made, in order. -/
  calls : List Visit := []
  active : Bool := false
  /-- The payloads taken from the stream. -/
  payloads : List String := []
  /-- The messages put on the agenda. -/
  messages : List String := []
deriving Repr

/-- The message of a payload that can be delivered. -/
def Setup.message? (setup : Setup) (payload : String) : Option String :=
  match setup.screen payload with
  | .error _ => none
  | .ok m =>
    match Event.decode m with
    | .error _ => none
    | .ok _ => some m

/-- A listener that answers so ends the attempt. -/
def Hook.isBroken : Hook → Option Fault → Bool
  | _, none => false
  | .sync, some _ => true
  | .event _, some f => f.isFatal

/-- Calls of listeners for one reason. -/
def visitsTo (ls : List Listener) (h : Hook) : List Visit := ls.map fun l => (l, h)

section
variable (setup : Setup) (c : String) (id : Nat)

/-- The attempt after one more mark. -/
def Attempt.after (past : List Mark) (a : Attempt) : Mark → Attempt
  | .stored (.task i) (.subscribe _) _ => if i = id then {} else a
  | .opened i _ start =>
    if i = id then
      { a with phase := .between, start, first := visitsTo (registered c past) .sync
               agenda := visitsTo (registered c past) .sync }
    else a
  | .took i _ _ =>
    if i = id then { a with agenda := a.agenda ++ visitsTo (queued c past) .sync } else a
  | .called i l h =>
    if i = id then { a with phase := .within (l, h), calls := a.calls ++ [(l, h)] } else a
  | .returned i _ h fault =>
    if i = id then { a with phase := if h.isBroken fault then .over else .between } else a
  | .read i (.message p) =>
    if i = id then
      { a with payloads := a.payloads ++ [p]
               phase := if (setup.message? p).isSome then .between else .over }
    else a
  | .read i _ => if i = id then { a with phase := .over } else a
  | .dispatched i m _ =>
    if i = id then
      { a with messages := a.messages ++ [m]
               agenda := a.agenda ++ visitsTo (registered c past) (.event m) }
    else a
  | .published i .active => if i = id then { a with active := true } else a
  | _ => a

/-- The current attempt of a task of a cluster, or its last one. -/
def attempt : List Mark → Attempt
  | [] => {}
  | m :: past => (attempt past).after setup c id past m

/-- When a task of a cluster may make a mark. -/
def Lawful (past : List Mark) : Mark → Prop
  | .stored (.task i) (.subscribe key) _ =>
    i = id → (attempt setup c id past).phase = .over ∧ key = registryKey c
  | .opened i _ _ => i = id → ∃ queue before,
    past = .took id c queue :: .stored (.task id) (.subscribe (registryKey c)) none :: before
  | .called i l h => i = id → (attempt setup c id past).phase = .between ∧
    (attempt setup c id past).calls ++ [(l, h)] <+: (attempt setup c id past).agenda
  | .returned i l h _ => i = id → (attempt setup c id past).phase = .within (l, h)
  | .read i _ => i = id → (attempt setup c id past).phase = .between ∧
    (attempt setup c id past).calls = (attempt setup c id past).agenda ∧
    (attempt setup c id past).active = true
  | .took i c' queue => i = id → c' = c ∧ queue = queued c past ∧
    ((∃ key before, past = .stored (.task id) (.subscribe key) none :: before) ∨
      (attempt setup c id past).phase = .between ∧
      (attempt setup c id past).calls = (attempt setup c id past).agenda)
  | .dispatched i m audience => i = id → audience = registered c past ∧
    ∃ queue p before, past = .took id c queue :: .read id (.message p) :: before ∧
      setup.message? p = some m
  | .published i .active => i = id → (attempt setup c id past).phase = .between ∧
    (attempt setup c id past).calls = (attempt setup c id past).first ∧
    (attempt setup c id past).agenda = (attempt setup c id past).first
  | _ => True

/-- Every mark of a record was made lawfully. -/
def Laws : List Mark → Prop
  | [] => True
  | m :: past => Lawful setup c id past m ∧ Laws past

end

section
variable {setup : Setup} {c : String} {id : Nat} {m : Mark} {past trace : List Mark}

theorem Laws.suffix (h : Laws setup c id trace) (hs : past <:+ trace) : Laws setup c id past := by
  induction trace with
  | nil => exact (List.suffix_nil.1 hs) ▸ h
  | cons m rest ih =>
    rcases List.suffix_cons_iff.1 hs with rfl | hs
    · exact h
    · exact ih h.2 hs

theorem Laws.of_suffix (h : Laws setup c id trace) (hs : m :: past <:+ trace) :
    Lawful setup c id past m := (h.suffix hs).1

/-- Only its own marks change what is told of a task. -/
theorem attempt_cons (h : m.owner? ≠ some id) :
    attempt setup c id (m :: past) = attempt setup c id past := by
  simp only [attempt]
  unfold Attempt.after
  split <;> simp_all [Mark.owner?]

theorem lawful_of_owner (h : m.owner? ≠ some id) : Lawful setup c id past m := by
  unfold Lawful
  split <;> simp_all [Mark.owner?]

theorem attempt_append {ms : List Mark} (h : ∀ m ∈ ms, m.owner? ≠ some id) :
    attempt setup c id (ms ++ past) = attempt setup c id past ∧
    (Laws setup c id past → Laws setup c id (ms ++ past)) := by
  induction ms with
  | nil => exact ⟨rfl, fun h => h⟩
  | cons m rest ih =>
    obtain ⟨ha, hl⟩ := ih fun m hm => h m (by simp [hm])
    have hm := h m (by simp)
    exact ⟨(attempt_cons hm).trans ha, fun hp => ⟨lawful_of_owner hm, hl hp⟩⟩

/-- Nothing is told of a task that made no mark. -/
theorem attempt_unmarked (h : ∀ m ∈ trace, m.owner? ≠ some id) :
    attempt setup c id trace = {} ∧ Laws setup c id trace := by
  obtain ⟨ha, hl⟩ := @attempt_append setup c id [] _ h
  simpa [attempt, Laws] using And.intro ha (hl trivial)

/-- No call is made that is not on the agenda, and none out of its order. -/
theorem calls_due (h : Laws setup c id trace) :
    (attempt setup c id trace).calls <+: (attempt setup c id trace).agenda := by
  induction trace with
  | nil => exact List.prefix_rfl
  | cons m past ih =>
    obtain ⟨hlaw, hpast⟩ := h
    have hcalls := ih hpast
    simp only [attempt]
    unfold Attempt.after
    split
    · split
      · exact List.prefix_rfl
      · exact hcalls
    · split
      · next hi =>
        obtain ⟨queue, before, rfl⟩ := hlaw hi
        simp [attempt, Attempt.after]
      · exact hcalls
    · split
      · exact hcalls.trans (List.prefix_append _ _)
      · exact hcalls
    · split
      · next hi => exact (hlaw hi).2
      · exact hcalls
    · split <;> exact hcalls
    · split <;> exact hcalls
    · split <;> exact hcalls
    · split
      · exact hcalls.trans (List.prefix_append _ _)
      · exact hcalls
    · split <;> exact hcalls
    · exact hcalls

/-- What a mark puts on the agenda are calls of those who are registered or queued. -/
theorem mem_agenda_after {a : Attempt} {visit : Visit}
    (h : visit ∈ (a.after setup c id past m).agenda) :
    visit ∈ a.agenda ∨ visit.1 ∈ registered c past ∨ visit.1 ∈ queued c past := by
  have called : ∀ {ls : List Listener} {hook : Hook}, visit ∈ visitsTo ls hook → visit.1 ∈ ls := by
    intro ls hook hv
    obtain ⟨l, hl, rfl⟩ := List.mem_map.1 hv
    exact hl
  unfold Attempt.after at h
  split at h <;> (try split at h) <;> try exact .inl h
  · cases h
  · exact .inr (.inl (called h))
  · exact (List.mem_append.1 h).imp_right fun h => .inr (called h)
  · exact (List.mem_append.1 h).imp_right fun h => .inl (called h)

/-- Who is to be called was attached. -/
theorem attached_of_agenda {l : Listener} {hook : Hook}
    (h : (l, hook) ∈ (attempt setup c id trace).agenda) :
    ∃ joined, .attached c l joined ∈ trace := by
  induction trace with
  | nil => cases h
  | cons m past ih =>
    have hpast : ∃ joined, .attached c l joined ∈ past := by
      rcases mem_agenda_after h with h | h | h
      · exact ih h
      · exact attached_of_registered h
      · exact attached_of_queued h
    exact hpast.imp fun _ => List.mem_cons_of_mem _

end

/-! ## Where a task stands -/

/-- The calls that a pass still has to make. -/
def due : Pass → List Listener → List Visit
  | .beforeDelivery m audience, rest => visitsTo rest .sync ++ visitsTo audience (.event m)
  | pass, rest => visitsTo rest pass.hook

theorem exists_mem_due {l : Listener} {rest : List Listener} (pass : Pass) (h : l ∈ rest) :
    ∃ hook, (l, hook) ∈ due pass rest := by
  cases pass with
  | beforeDelivery m audience =>
    exact ⟨.sync, List.mem_append_left _ (List.mem_map.2 ⟨l, h, rfl⟩)⟩
  | _ => exact ⟨_, List.mem_map.2 ⟨l, h, rfl⟩⟩

namespace Attempt

/-- A pass is the first one, or the task is active. -/
def Warm (a : Attempt) : Pass → Prop
  | .full => a.agenda = a.first
  | _ => a.active = true

/-- What a task has done fits where it stands. -/
def Follows (a : Attempt) : Position → Prop
  | .opening _ | .waiting _ => a.phase = .over
  | .passing _ pass rest =>
    a.phase = .between ∧ a.agenda = a.calls ++ due pass rest ∧ a.Warm pass
  | .calling _ pass l _ rest =>
    a.phase = .within (l, pass.hook) ∧ a.agenda = a.calls ++ due pass rest ∧ a.Warm pass
  | .listening _ => a.phase = .between ∧ a.agenda = a.calls ∧ a.active = true
  | .ended => True

/-- The last payload is no message. -/
def Garbled (setup : Setup) (a : Attempt) : Prop :=
  ∃ p m f, a.payloads.getLast? = some p ∧ setup.screen p = .ok m ∧ Event.decode m = .error f

structure Fits (setup : Setup) (a : Attempt) (p : Position) (cancelled : Bool) : Prop where
  follows : a.Follows p
  messages : a.messages = a.payloads.filterMap setup.message?
  garbled : a.Garbled setup → p = .ended
  ended : p = .ended → a.phase = .over ∨ cancelled = true

end Attempt

namespace World

/-- A task of a cluster stands at `p`, its attempt is `a`, and all its marks were lawful. -/
structure Stands (setup : Setup) (c : String) (id : Nat) (w : World) (a : Attempt)
    (p : Position) : Prop where
  task : ∃ t, w.tasks[id]? = some t ∧ t.cluster = c ∧ t.position = p
  record : attempt setup c id w.trace = a
  laws : Laws setup c id w.trace
  booked : Booked w

namespace Stands

variable {setup : Setup} {c : String} {id : Nat} {w w' : World} {a : Attempt} {p : Position}
  {t : Task}

theorem elsewhere (h : Stands setup c id w a p) (e : Elsewhere id w w') (hb : Booked w') :
    Stands setup c id w' a p := by
  obtain ⟨t, ht, hc, hp⟩ := h.task
  obtain ⟨t', ht', hc', hp', -⟩ := e.task t ht
  obtain ⟨ms, hm, hms⟩ := e.trace
  obtain ⟨ha, hl⟩ := @attempt_append setup c id w.trace _ hms
  exact ⟨⟨t', ht', hc'.trans hc, hp'.trans hp⟩, by rw [hm, ha, h.record], by rw [hm]; exact hl h.laws,
    hb⟩

/-- Neither listeners nor tasks nor the record change. -/
theorem same (h : Stands setup c id w a p) (hl : w'.listeners = w.listeners)
    (ht : w'.tasks = w.tasks) (hm : w'.trace = w.trace) : Stands setup c id w' a p :=
  h.elsewhere (.quiet ht hm) (h.booked.same hl hm)

theorem move (h : Stands setup c id w a p) (f : Task → Task) (p' : Position)
    (hc : ∀ u, (f u).cluster = u.cluster) (hp : ∀ u, (f u).position = p') :
    Stands setup c id (w.updateTask id f) a p' := by
  obtain ⟨t, ht, hcl, -⟩ := h.task
  exact ⟨⟨f t, by simp [updateTask, ht], (hc t).trans hcl, hp t⟩, h.record, h.laws,
    h.booked.same rfl rfl⟩

theorem moveTask (h : Stands setup c id w a p) (p' : Position) :
    Stands setup c id (w.moveTask id p') a p' :=
  h.move _ p' (fun _ => rfl) fun _ => rfl

theorem note (h : Stands setup c id w a p) {m : Mark} (hm : m.isQuiet = true)
    (hlaw : Lawful setup c id w.trace m) :
    Stands setup c id (w.note m) (a.after setup c id w.trace m) p :=
  ⟨h.task, by rw [← h.record]; rfl, ⟨hlaw, h.laws⟩, h.booked.note hm⟩

theorem takePending (h : Stands setup c id w a p)
    (ha : (∃ key before, w.trace = .stored (.task id) (.subscribe key) none :: before) ∨
      a.phase = .between ∧ a.calls = a.agenda) :
    Stands setup c id (w.takePending id c).2
      { a with agenda := a.agenda ++ visitsTo (w.listeners.pending c) .sync } p := by
  refine ⟨h.task, ?_, ⟨fun _ => ⟨rfl, h.booked.pending c, h.record ▸ ha⟩, h.laws⟩,
    h.booked.takePending id c⟩
  rw [h.booked.pending c, ← h.record]
  simp [World.takePending, World.note, attempt, Attempt.after]

/-- A status other than active. -/
theorem publish (h : Stands setup c id w a p) {s : Status} (hs : s ≠ .active) :
    Stands setup c id (w.publish id t s) a p := by
  unfold World.publish
  split
  · exact h
  · next slot _ =>
    split
    · have hslot : Stands setup c id
          { w with slots := w.slots.insert t.cluster (slot.publish t.generation s) } a p :=
        h.same rfl rfl rfl
      have hafter : a.after setup c id w.trace (.published id s) = a := by
        cases s with
        | active => exact absurd rfl hs
        | _ => rfl
      have hlaw : Lawful setup c id w.trace (.published id s) := by
        cases s with
        | active => exact absurd rfl hs
        | _ => trivial
      have hnote := hslot.note (m := .published id s) rfl hlaw
      rwa [hafter] at hnote
    · exact h

theorem publishActive (h : Stands setup c id w a p) {slot : Slot}
    (hs : w.slots.get? t.cluster = some slot) (hg : slot.generation = t.generation)
    (ha : a.phase = .between) (hcalls : a.calls = a.first) (hagenda : a.agenda = a.first) :
    Stands setup c id (w.publish id t .active) { a with active := true } p := by
  simp only [World.publish, hs, if_pos hg]
  have hslot : Stands setup c id
      { w with slots := w.slots.insert t.cluster (slot.publish t.generation .active) } a p :=
    h.same rfl rfl rfl
  have hnote := hslot.note (m := .published id .active) rfl fun _ => by
    have hrec : attempt setup c id w.trace = a := h.record
    simp only [hrec]
    exact ⟨ha, hcalls, hagenda⟩
  simpa [Attempt.after] using hnote

end Stands

end World

end Muster
