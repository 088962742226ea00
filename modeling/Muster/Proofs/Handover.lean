import Muster.Client.Tasks

/-!
# How joiners are handed over

A listener that joins a running task is queued and then registered; the task takes the queue and
copies the list of listeners, in one order when an attempt begins and in the other when a message
has come. In a `World` the calls of one step are made together. Here each call is a step of its
own (`Access`), and those of a subscribing caller and of the task mix in any order; callers exclude
each other. Whoever a message is delivered to was synchronised in the same attempt, unless the
attempt began in the middle of a join (`Torn`).

| here | in the program |
| --- | --- |
| `enqueue`, `register` | `mark_pending` and `add`, called by `subscribe` of `SubscriptionManager` |
| `takeQueue`, `copyAll` | `take_pending` and `listeners`, called by `attempt` |
| `takeJoined` | `take_pending`, called by `sync_joined` when a joiner woke the task |
| `copyAudience`, `takeLate` | `listeners` and `take_pending`, called by `dispatch` |
-/
namespace Muster

/-- What an attempt calls to synchronise: all listeners at first, then those that joined. -/
structure Round (α : Type) where
  full : List α
  /-- The queues that were taken since, newest first. -/
  batches : List (List α) := []

/-- Where a task stands between two of its calls. -/
inductive Place (α : Type) where
  | resting
  /-- An attempt has begun and taken the queue. -/
  | emptied
  | listening (round : Round α)
  /-- A message has come, and the list was copied for it. -/
  | copied (round : Round α) (audience : List α)
  /-- Then the queue was taken; the audience is delivered to as soon as the queue is synchronised. -/
  | delivering (round : Round α) (audience : List α)

/-- The lists of a cluster, the listener that a caller has queued and not registered yet, and the
task. -/
structure Handover (α : Type) where
  listeners : Listeners α
  joining : Option α := none
  place : Place α := .resting

/-- A call on the lists of a cluster, or the end of an attempt or of a delivery. -/
inductive Access (α : Type) where
  /-- A caller queues a listener. -/
  | enqueue (listener : α)
  /-- It registers the listener that it has queued. -/
  | register
  /-- An attempt takes the queue when it begins. -/
  | takeQueue
  /-- It copies the list for the full pass. -/
  | copyAll
  /-- The task noticed that somebody joined, and takes the queue. -/
  | takeJoined
  /-- The task copies the list for a message. -/
  | copyAudience
  /-- It takes the queue before it delivers the message. -/
  | takeLate
  | delivered
  | giveUp
deriving DecidableEq

namespace Round

variable {α : Type}

def take (r : Round α) (batch : List α) : Round α := { r with batches := batch :: r.batches }

/-- The listener is called to synchronise. -/
def Covers (r : Round α) (l : α) : Prop := l ∈ r.full ∨ ∃ batch ∈ r.batches, l ∈ batch

theorem covers_take {r : Round α} {batch : List α} {l : α} :
    (r.take batch).Covers l ↔ l ∈ batch ∨ r.Covers l := by
  simp only [Covers, take, List.mem_cons, exists_eq_or_imp]
  exact or_left_comm

end Round

namespace Handover

variable {α : Type} {c : String} {s s' : Handover α} {past : List (Access α)} {l : α}

/-- One call, or nothing where the program does not make it. -/
def step (c : String) (s : Handover α) : Access α → Option (Handover α)
  | .enqueue l =>
    match s.joining with
    | none => some { s with listeners := s.listeners.enqueue c l, joining := some l }
    | some _ => none
  | .register => s.joining.map fun l => { s with listeners := s.listeners.add c l, joining := none }
  | .takeQueue =>
    match s.place with
    | .resting => some { s with listeners := (s.listeners.takePending c).2, place := .emptied }
    | _ => none
  | .copyAll =>
    match s.place with
    | .emptied => some { s with place := .listening { full := s.listeners.of c } }
    | _ => none
  | .takeJoined =>
    match s.place with
    | .listening r =>
      let (batch, listeners) := s.listeners.takePending c
      some { s with listeners, place := .listening (r.take batch) }
    | _ => none
  | .copyAudience =>
    match s.place with
    | .listening r => some { s with place := .copied r (s.listeners.of c) }
    | _ => none
  | .takeLate =>
    match s.place with
    | .copied r audience =>
      let (batch, listeners) := s.listeners.takePending c
      some { s with listeners, place := .delivering (r.take batch) audience }
    | _ => none
  | .delivered =>
    match s.place with
    | .delivering r _ => some { s with place := .listening r }
    | _ => none
  | .giveUp => some { s with place := .resting }

/-- Where calls lead to, the newest one first. -/
def after (c : String) (s : Handover α) : List (Access α) → Option (Handover α)
  | [] => some s
  | a :: past => (after c s past).bind fun s' => s'.step c a

/-! ## The steps of a client -/

section
variable {setup : Setup} {w : World} {id : Nat} {t : Task} {h : Handover Listener}

/-- A listener that can join a task is queued, and then registered. -/
theorem after_attach {l : Listener} (hopen : w.closed = false)
    (hjoin : w.joinable? c = some id) (hl : h.listeners = w.listeners) (hj : h.joining = none) :
    h.after c [.register, .enqueue l] =
      some { h with listeners := (w.attach setup c l).2.listeners } := by
  simp [after, step, hj, hl, World.attach, hopen, hjoin, World.note, World.updateTask]

/-- A stream was opened: the queue is taken, and then the list is copied. -/
theorem after_beginFullPass {stream : Nat} (hl : h.listeners = w.listeners)
    (hp : h.place = .resting) :
    h.after t.cluster [.copyAll, .takeQueue] = some { h with
      listeners := (w.beginFullPass id t stream).listeners
      place := .listening { full := w.listeners.of t.cluster } } := by
  simp [after, step, hp, hl, World.beginFullPass, World.takePending, World.note, World.moveTask,
    World.updateTask]

/-- A task that noticed a joiner takes the queue. -/
theorem after_listen {stream : Nat} {r : Round Listener} {w' : World} (hn : t.notified = true)
    (hw : w.listen setup id t stream = some w') (hl : h.listeners = w.listeners)
    (hp : h.place = .listening r) :
    h.after t.cluster [.takeJoined] = some { h with
      listeners := w'.listeners
      place := .listening (r.take (w.listeners.pending t.cluster)) } := by
  simp only [World.listen, hn, if_true, Option.some.injEq] at hw
  subst hw
  simp [after, step, hp, hl, World.takePending, World.note, World.moveTask, World.updateTask]

/-- For a message that can be read the list is copied, and then the queue is taken. -/
theorem after_receive {stream : Nat} {payload m : String} {e : Event} {r : Round Listener}
    (hs : setup.screen payload = .ok m) (he : Event.decode m = .ok e)
    (hl : h.listeners = w.listeners) (hp : h.place = .listening r) :
    h.after t.cluster [.takeLate, .copyAudience] = some { h with
      listeners := (w.receive setup id t stream payload).listeners
      place := .delivering (r.take (w.listeners.pending t.cluster)) (w.listeners.of t.cluster) } := by
  simp [after, step, hp, hl, World.receive, hs, he, World.takePending, World.note, World.moveTask,
    World.updateTask, World.count]

end

/-! ## Torn joins -/

/-- A caller queued the listener and has registered nobody since. -/
def Underway (l : α) (past : List (Access α)) : Prop :=
  ∃ newer older, past = newer ++ .enqueue l :: older ∧ .register ∉ newer

/-- So it was when an attempt took the queue. -/
def Straddled (l : α) (past : List (Access α)) : Prop :=
  ∃ newer older, past = newer ++ .enqueue l :: older ∧ .register ∉ newer ∧ .takeQueue ∈ newer

/-- The last attempt took the queue, and copied the list for its full pass, in the middle of a
join. -/
def Torn (l : α) (past : List (Access α)) : Prop :=
  ∃ newer older, past = newer ++ .copyAll :: older ∧ .takeQueue ∉ newer ∧ Straddled l older

section
variable {a : Access α}

theorem Underway.cons (h : Underway l past) (ha : a ≠ .register) : Underway l (a :: past) := by
  obtain ⟨newer, older, rfl, hreg⟩ := h
  exact ⟨a :: newer, older, rfl, by simp [ha.symm, hreg]⟩

theorem Underway.straddled (h : Underway l past) : Straddled l (.takeQueue :: past) := by
  obtain ⟨newer, older, rfl, hreg⟩ := h
  exact ⟨.takeQueue :: newer, older, rfl, by simp [hreg], .head _⟩

theorem Straddled.underway (h : Straddled l past) : Underway l past := by
  obtain ⟨newer, older, hpast, hreg, -⟩ := h
  exact ⟨newer, older, hpast, hreg⟩

theorem Straddled.torn (h : Straddled l past) : Torn l (.copyAll :: past) :=
  ⟨[], past, rfl, by simp, h⟩

theorem Torn.cons (h : Torn l past) (ha : a ≠ .takeQueue) : Torn l (a :: past) := by
  obtain ⟨newer, older, rfl, htake, hs⟩ := h
  exact ⟨a :: newer, older, rfl, by simp [ha.symm, htake], hs⟩

end

/-! ## Who is covered -/

/-- The listener was called to synchronise or is going to be, or its join was torn. -/
def Safe (c : String) (s : Handover α) (r : Round α) (past : List (Access α)) (l : α) : Prop :=
  r.Covers l ∨ l ∈ s.listeners.pending c ∨ Torn l past

theorem Safe.cons {a : Access α} {r r' : Round α} (h : Safe c s r past l) (ha : a ≠ .takeQueue)
    (hround : r.Covers l → r'.Covers l)
    (hqueue : l ∈ s.listeners.pending c → l ∈ s'.listeners.pending c ∨ r'.Covers l) :
    Safe c s' r' (a :: past) l := by
  rcases h with hcov | hqueued | htorn
  · exact .inl (hround hcov)
  · exact (hqueue hqueued).elim (fun h => .inr (.inl h)) .inl
  · exact .inr (.inr (htorn.cons ha))

/-- Everybody on the list of the cluster, and whoever is about to come onto it, is safe. -/
def Minded (c : String) (s : Handover α) (r : Round α) (past : List (Access α)) : Prop :=
  ∀ l, l ∈ s.listeners.of c ∨ s.joining = some l → Safe c s r past l

/-- What is known where a task stands. -/
def Placed (c : String) (s : Handover α) (past : List (Access α)) : Place α → Prop
  | .resting => True
  | .emptied => ∀ l, s.joining = some l → l ∈ s.listeners.pending c ∨ Straddled l past
  | .listening r => Minded c s r past
  | .copied r audience => Minded c s r past ∧ ∀ l ∈ audience, Safe c s r past l
  | .delivering r audience => Minded c s r past ∧ ∀ l ∈ audience, r.Covers l ∨ Torn l past

/-- What holds after every call. -/
structure Known (c : String) (s : Handover α) (past : List (Access α)) : Prop where
  joining : ∀ l, s.joining = some l → Underway l past
  placed : Placed c s past s.place

/-- A call of a caller leaves the task where it is, and all safe who were. -/
theorem Placed.called {a : Access α} {p : Place α} (h : Placed c s past p) (ha : a ≠ .takeQueue)
    (hqueue : ∀ l, l ∈ s.listeners.pending c → l ∈ s'.listeners.pending c)
    (hlist : ∀ l, l ∈ s'.listeners.of c ∨ s'.joining = some l →
      l ∈ s.listeners.of c ∨ s.joining = some l ∨ l ∈ s'.listeners.pending c)
    (hjoin : p = .emptied → ∀ l, s'.joining = some l → l ∈ s'.listeners.pending c) :
    Placed c s' (a :: past) p := by
  have safe : ∀ {r l}, Safe c s r past l → Safe c s' r (a :: past) l :=
    fun h => h.cons ha id fun hq => .inl (hqueue _ hq)
  have minded : ∀ {r}, Minded c s r past → Minded c s' r (a :: past) := by
    intro r h l hl
    rcases hlist l hl with hl | hl | hl
    · exact safe (h l (.inl hl))
    · exact safe (h l (.inr hl))
    · exact .inr (.inl hl)
  cases p with
  | resting => trivial
  | emptied => exact fun l hl => .inl (hjoin rfl l hl)
  | listening r => exact minded h
  | copied r audience => exact ⟨minded h.1, fun l hl => safe (h.2 l hl)⟩
  | delivering r audience =>
    exact ⟨minded h.1, fun l hl => (h.2 l hl).imp_right fun h => h.cons ha⟩

/-- A queue that is taken becomes a batch. -/
theorem Minded.take {r : Round α} {a : Access α} (h : Minded c s r past) (ha : a ≠ .takeQueue)
    (hlist : s'.listeners.of c = s.listeners.of c) (hjoin : s'.joining = s.joining) :
    Minded c s' (r.take (s.listeners.pending c)) (a :: past) := by
  intro l hl
  rw [hlist, hjoin] at hl
  exact (h l hl).cons ha (fun h => Round.covers_take.2 (.inr h))
    fun hq => .inr (Round.covers_take.2 (.inl hq))

theorem Known.step {a : Access α} (h : Known c s past) (hs : s.step c a = some s') :
    Known c s' (a :: past) := by
  have underway : a ≠ .register → s'.joining = s.joining →
      ∀ l, s'.joining = some l → Underway l (a :: past) := fun ha hj l hl =>
    (h.joining l (hj ▸ hl)).cons ha
  have hplaced := h.placed
  cases a with
  | enqueue l =>
    simp only [Handover.step] at hs
    split at hs
    · next hfree =>
      cases hs
      refine ⟨fun l' hl' => ?_, hplaced.called (by simp) (by simp +contextual) ?_ ?_⟩
      · cases hl'
        exact ⟨[], past, rfl, by simp⟩
      · intro l' hl'
        rcases hl' with hl' | hl'
        · exact .inl (by simpa using hl')
        · cases hl'
          exact .inr (.inr (by simp))
      · intro _ l' hl'
        cases hl'
        simp
    · cases hs
  | register =>
    obtain ⟨l, hl, rfl⟩ := Option.map_eq_some_iff.1 hs
    refine ⟨fun _ hl' => by simp at hl', hplaced.called (by simp) (fun _ hq => hq) ?_ ?_⟩
    · intro l' hl'
      simp only [Listeners.of_add, if_true, List.mem_append, List.mem_singleton, reduceCtorEq,
        or_false] at hl'
      rcases hl' with hl' | rfl
      · exact .inl hl'
      · exact .inr (.inl hl)
    · exact fun _ l' hl' => by cases hl'
  | takeQueue =>
    simp only [Handover.step] at hs
    split at hs <;> cases hs
    exact ⟨underway (by simp) rfl, fun l hl => .inr (h.joining l hl).straddled⟩
  | copyAll =>
    simp only [Handover.step] at hs
    split at hs
    · next hp =>
      cases hs
      rw [hp] at hplaced
      refine ⟨underway (by simp) rfl, fun l hl => ?_⟩
      rcases hl with hl | hl
      · exact .inl (.inl hl)
      · exact (hplaced l hl).elim (fun hq => .inr (.inl hq)) fun hs => .inr (.inr hs.torn)
    · cases hs
  | takeJoined =>
    simp only [Handover.step] at hs
    split at hs
    · next r hp =>
      cases hs
      rw [hp] at hplaced
      exact ⟨underway (by simp) rfl, hplaced.take (by simp) (by simp) rfl⟩
    · cases hs
  | copyAudience =>
    simp only [Handover.step] at hs
    split at hs
    · next r hp =>
      cases hs
      rw [hp] at hplaced
      have hminded : Minded c { s with place := .copied r (s.listeners.of c) } r
          (.copyAudience :: past) :=
        fun l hl => (hplaced l hl).cons (by simp) id .inl
      exact ⟨underway (by simp) rfl, hminded, fun l hl => hminded l (.inl hl)⟩
    · cases hs
  | takeLate =>
    simp only [Handover.step] at hs
    split at hs
    · next r audience hp =>
      cases hs
      rw [hp] at hplaced
      refine ⟨underway (by simp) rfl, hplaced.1.take (by simp) (by simp) rfl, fun l hl => ?_⟩
      -- Who is safe is covered now, for nobody is left in the queue.
      rcases hplaced.2 l hl with hcov | hqueued | htorn
      · exact .inl (Round.covers_take.2 (.inr hcov))
      · exact .inl (Round.covers_take.2 (.inl hqueued))
      · exact .inr (htorn.cons (by simp))
    · cases hs
  | delivered =>
    simp only [Handover.step] at hs
    split at hs
    · next r audience hp =>
      cases hs
      rw [hp] at hplaced
      exact ⟨underway (by simp) rfl, fun l hl => (hplaced.1 l hl).cons (by simp) id .inl⟩
    · cases hs
  | giveUp =>
    cases hs
    exact ⟨underway (by simp) rfl, trivial⟩

theorem Known.after {ls : Listeners α} (h : after c { listeners := ls } past = some s) :
    Known c s past := by
  induction past generalizing s with
  | nil =>
    cases h
    exact ⟨fun _ hl => by simp at hl, trivial⟩
  | cons a past ih =>
    obtain ⟨v, hv, hs⟩ := Option.bind_eq_some_iff.1 h
    exact (ih hv).step hs

/-! ## One torn join in an attempt -/

theorem joining_of_underway {s₀ : Handover α} (h : after c s₀ past = some s)
    (hl : Underway l past) : s.joining = some l := by
  induction past generalizing s with
  | nil =>
    obtain ⟨newer, older, hnil, -⟩ := hl
    simp at hnil
  | cons a past ih =>
    obtain ⟨v, hv, hs⟩ := Option.bind_eq_some_iff.1 h
    obtain ⟨newer, older, hpast, hreg⟩ := hl
    cases newer with
    | nil =>
      cases hpast
      simp only [Handover.step] at hs
      split at hs <;> cases hs
      rfl
    | cons b newer =>
      obtain ⟨rfl, rfl⟩ := List.cons.inj hpast
      obtain ⟨hb, hreg⟩ := not_or.1 (mt List.mem_cons.2 hreg)
      have hjoining := ih hv ⟨newer, older, rfl, hreg⟩
      cases a with
      | register => exact absurd rfl hb
      | enqueue => simp [Handover.step, hjoining] at hs
      | giveUp =>
        cases hs
        exact hjoining
      | _ =>
        simp only [Handover.step] at hs
        split at hs <;> cases hs
        exact hjoining

/-- A torn join is one since the list was last copied for a full pass. -/
theorem torn_cons {a : Access α} :
    Torn l (a :: past) ↔ a = .copyAll ∧ Straddled l past ∨ a ≠ .takeQueue ∧ Torn l past := by
  constructor
  · rintro ⟨newer, older, hpast, htake, hs⟩
    cases newer with
    | nil =>
      cases hpast
      exact .inl ⟨rfl, hs⟩
    | cons b newer =>
      obtain ⟨rfl, rfl⟩ := List.cons.inj hpast
      obtain ⟨hb, htake⟩ := not_or.1 (mt List.mem_cons.2 htake)
      exact .inr ⟨Ne.symm hb, newer, older, rfl, htake, hs⟩
  · rintro (⟨rfl, hs⟩ | ⟨ha, ht⟩)
    · exact hs.torn
    · exact ht.cons ha

theorem Torn.place {s₀ : Handover α} (ht : Torn l past) (h : after c s₀ past = some s) :
    s.place ≠ .emptied := by
  induction past generalizing s with
  | nil =>
    obtain ⟨newer, older, hnil, -⟩ := ht
    simp at hnil
  | cons a past ih =>
    obtain ⟨v, hv, hs⟩ := Option.bind_eq_some_iff.1 h
    have hplace : a = .copyAll ∨ a ≠ .takeQueue ∧ v.place ≠ .emptied :=
      (torn_cons.1 ht).imp And.left (And.imp_right fun ht => ih ht hv)
    cases a with
    | takeQueue => simp at hplace
    | enqueue =>
      simp only [Handover.step] at hs
      split at hs <;> cases hs
      simpa using hplace
    | register =>
      obtain ⟨_, -, rfl⟩ := Option.map_eq_some_iff.1 hs
      simpa using hplace
    | giveUp =>
      cases hs
      simp
    | _ =>
      simp only [Handover.step] at hs
      split at hs <;> cases hs
      simp

theorem torn_unique {s₀ : Handover α} (h : after c s₀ past = some s) {l' : α} (ht : Torn l past)
    (ht' : Torn l' past) : l = l' := by
  induction past generalizing s with
  | nil =>
    obtain ⟨newer, older, hnil, -⟩ := ht
    simp at hnil
  | cons a past ih =>
    obtain ⟨v, hv, hs⟩ := Option.bind_eq_some_iff.1 h
    -- The list is copied for a full pass only where no join of this attempt was torn before.
    have copied : a = .copyAll → ∀ k, ¬ Torn k past := by
      rintro rfl k hk
      simp only [Handover.step] at hs
      split at hs
      · next hp => exact hk.place hv hp
      · cases hs
    rcases torn_cons.1 ht with ⟨ha, hs₁⟩ | ⟨-, ht⟩ <;> rcases torn_cons.1 ht' with ⟨ha', hs₂⟩ | ⟨-, ht'⟩
    · exact Option.some.inj ((joining_of_underway hv hs₁.underway).symm.trans
        (joining_of_underway hv hs₂.underway))
    · exact absurd ht' (copied ha l')
    · exact absurd ht (copied ha' l)
    · exact ih hv ht ht'

/-! ## Main results -/

/-- Callers subscribe and a task makes its calls, in any order, whatever the lists were at the
beginning. Whenever the task delivers a message, everybody in its copy of the list was called to
synchronise in this attempt, in the full pass or in a batch taken since the list was copied for it;
unless the attempt took the queue in the middle of the listener's join, and copied the list in the
middle of it too, as it can with one listener only. -/
theorem audience_synchronised {ls : Listeners α} {r : Round α} {audience : List α}
    (h : after c { listeners := ls } past = some s) (hp : s.place = .delivering r audience) :
    (∀ l ∈ audience, l ∈ r.full ∨ (∃ batch ∈ r.batches, l ∈ batch) ∨ Torn l past) ∧
    ∀ l l', Torn l past → Torn l' past → l = l' := by
  have hplaced := (Known.after h).placed
  rw [hp] at hplaced
  exact ⟨fun l hl => or_assoc.1 (hplaced.2 l hl), fun l l' => torn_unique h⟩

/-- A listener joins while the task listens, and a message comes before the task has noticed. -/
theorem audience_synchronised_joiner : ∃ past s r audience,
    after "c" { listeners := ({} : Listeners Listener).add "c" (.user "a") } past = some s ∧
    s.place = .delivering r audience ∧ .user "b" ∈ audience ∧ .user "b" ∉ r.full ∧
    (.user "b" ∈ r.full ∨ (∃ batch ∈ r.batches, .user "b" ∈ batch) ∨ Torn (.user "b") past) :=
  ⟨[.takeLate, .copyAudience, .register, .enqueue (.user "b"), .copyAll, .takeQueue], _, _, _, rfl,
    rfl, by decide, by decide, (audience_synchronised rfl rfl).1 _ (by decide)⟩

/-- An attempt begins between the two calls of a join. The listener has left the queue and is not
in the full pass, but it gets the message that follows. -/
theorem audience_unsynchronised : ∃ past s r audience,
    after "c" { listeners := ({} : Listeners Listener).add "c" (.user "a") } past = some s ∧
    s.place = .delivering r audience ∧ .user "b" ∈ audience ∧
    ¬ (.user "b" ∈ r.full ∨ ∃ batch ∈ r.batches, .user "b" ∈ batch) :=
  ⟨[.takeLate, .copyAudience, .register, .copyAll, .takeQueue, .enqueue (.user "b")], _, _, _, rfl,
    rfl, by decide, by decide⟩

end Handover

end Muster
