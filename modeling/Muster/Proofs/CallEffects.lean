import Muster.Proofs.Hashes
import Muster.Proofs.Steps

/-!
# What a call does to caches and store

A call that begins or goes on does one of a few things that matter to those who keep a cache or
read the store (`Deed`): it changes a hash, it announces such a change, it refills a cache or
declares it loaded, or none of these. What it has in mind to do next is its intent; a load is in
the hands of the owner of its cluster's cell.
-/
namespace Muster

def Listener.isUpdater : Listener → Bool
  | .updater _ _ => true
  | .user _ => false

/-- Marks that tell what becomes of messages: an updater was attached, a message is on its way, or
an updater has applied one. -/
def Mark.tells : Mark → Bool
  | .attached _ l _ => l.isUpdater
  | .dispatched _ _ _ => true
  | .returned _ l (.event _) none => l.isUpdater
  | _ => false

theorem Mark.tells_of_isAside {m : Mark} (hm : m.isAside = true) : m.tells = false := by
  cases m <;> first | rfl | cases hm

/-- How many messages were received and applied, how many protocol faults were met, and how often
tasks restarted and failed: what only tasks count. -/
def Counters.events (c : Counters) : (Nat × Nat × Nat) × Nat × Nat :=
  ((c.eventsReceived, c.eventsApplied, c.protocolFaults), c.subscriptionRestarts,
    c.subscriptionFailures)

/-- What a call under way has in mind. -/
inductive Intent where
  | write (event : Event)
  /-- The change was made and has still to be announced. -/
  | announce (event : Event)
  /-- The hash of the cluster is going to be read. -/
  | read (cluster : String)
  /-- The hash was read; the reply is going to fill the cache. -/
  | fill (cluster : String)
  /-- The cache of the cluster was refilled; it is loaded as soon as the first attempt is over. -/
  | start (cluster : String)
deriving DecidableEq, Repr

/-- The cluster that is being loaded. -/
def Intent.load? : Intent → Option String
  | .read c | .fill c | .start c => some c
  | _ => none

def Stage.intent? : Stage → Option Intent
  | .writing e _ => some (.write e)
  | .announcing e _ => some (.announce e)
  | .reading load _ => some (.read load.cluster)
  | .replied load _ _ => some (.fill load.cluster)
  | .starting load _ => some (.start load.cluster)
  | _ => none

def Progress.intent? : Progress → Option Intent
  | .finished _ => none
  | .paused stage => stage.intent?

def Position.intent? : Position → Option Intent
  | .calling _ _ _ (.awaiting _ _ stage _ _) _ => stage.intent?
  | _ => none

/-- The stage of the call that the listener being called has made. -/
def Position.stage? : Position → Option Stage
  | .calling _ _ _ (.awaiting _ _ stage _ _) _ => some stage
  | _ => none

theorem Stage.intent?_clear (stage : Stage) : stage.clear.intent? = stage.intent? := by
  cases stage <;> rfl

theorem Position.intent?_clear (p : Position) : p.clear.intent? = p.intent? := by
  unfold Position.clear
  split
  case h_4 => exact Stage.intent?_clear _
  all_goals rfl

theorem Position.stage?_clear (p : Position) : p.clear.stage? = p.stage?.map Stage.clear := by
  cases p with
  | calling s pass l callback rest => cases callback <;> rfl
  | _ => rfl

theorem Position.intent?_eq (p : Position) :
    p.intent? = (p.stage?.map Stage.clear).bind Stage.intent? := by
  unfold Position.intent? Position.stage?
  split <;> simp [Stage.intent?_clear]

theorem Position.stage?_of_stream? {p : Position} (h : p.stream? = none) :
    p.stage? = none := by
  cases p <;> first | rfl | cases h

/-- Actions that reach into the store past the calls of a client. -/
def Action.isOutside : Action → Bool
  | .putField _ _ _ | .dropField _ _ | .send _ _ => true
  | _ => false

theorem Caches.entry_update {α : Type} (cs : Caches α) (c c' : String)
    (f : Membership α → Membership α) :
    (cs.update c f).entry c' = if c = c' then f (cs.entry c) else cs.entry c' := by
  simp only [Caches.entry, Caches.update, Table.get?_insert]
  split <;> rfl

namespace Cell

variable {α : Type} {who : α} {cell : Cell α}

theorem enter_eq_loaded (h : cell.enter who = .loaded) : cell = .loaded := by
  cases cell <;> first | rfl | cases h

theorem handOver_eq_loaded (h : cell.handOver = .loaded) : cell = .loaded := by
  cases cell with
  | loaded => rfl
  | empty => cases h
  | loading o line => cases line <;> cases h

theorem leave_eq_loaded [DecidableEq α] (h : cell.leave who = .loaded) : cell = .loaded := by
  cases cell with
  | loaded => rfl
  | empty => cases h
  | loading o line =>
    simp only [leave] at h
    split at h
    · exact handOver_eq_loaded h
    · cases h

theorem not_loaded_of_owner (h : cell.owner? = some who) : cell ≠ .loaded := by
  rintro rfl
  cases h

theorem owner?_enter {o : α} (h : cell.owner? = some o) : (cell.enter who).owner? = some o := by
  cases cell with
  | loading o' line => exact h
  | _ => cases h

/-- Whoever else leaves, the owner stays. -/
theorem owner?_leave [DecidableEq α] {o : α} (h : cell.owner? = some o) (hne : o ≠ who) :
    (cell.leave who).owner? = some o := by
  cases cell with
  | loading o' line =>
    cases h
    simp [leave, hne, owner?]
  | _ => cases h

end Cell

namespace World

variable {setup : Setup}

/-- The stage of the call that an actor has made. -/
def stage? (w : World) : Actor → Option Stage
  | .task id => (w.tasks[id]?).bind fun t => t.position.stage?
  | .call id => w.calls.get? id

/-- What an actor has in mind. -/
def intent? (w : World) : Actor → Option Intent
  | .task id => (w.tasks[id]?).bind fun t => t.position.intent?
  | .call id => (w.calls.get? id).bind Stage.intent?

theorem members_updateCell (w : World) (c : String) (f : Cell Actor → Cell Actor) (c' : String) :
    ((w.updateCell c f).caches.entry c').members = (w.caches.entry c').members := by
  simp only [updateCell, updateCache, Caches.entry_update]
  split
  · next h => rw [h]
  · rfl

theorem cell_updateCell (w : World) (c : String) (f : Cell Actor → Cell Actor) (c' : String) :
    ((w.updateCell c f).caches.entry c').cell =
      if c = c' then f (w.caches.entry c').cell else (w.caches.entry c').cell := by
  simp only [updateCell, updateCache, Caches.entry_update]
  split
  · next h => rw [h]
  · rfl

/-- The cell of a cluster's cache. -/
def cell (w : World) (c : String) : Cell Actor := (w.caches.entry c).cell

/-- No mark is made that tells of messages. -/
def Silent (w v : World) : Prop := v.trace.filter Mark.tells = w.trace.filter Mark.tells

namespace Silent

variable {w v : World}

theorem same (h : v.trace = w.trace) : Silent w v := by rw [Silent, h]

theorem trans {a b c : World} (h : Silent a b) (h' : Silent b c) : Silent a c := Eq.trans h' h

theorem note (w : World) {m : Mark} (hm : m.tells = false) : Silent w (w.note m) := by
  simp [Silent, World.note, hm]

/-- Whether something was told before does not depend on what is told then. -/
theorem noted (h : Silent w v) (m : Mark) : Silent (w.note m) (v.note m) := by
  have h : v.trace.filter Mark.tells = w.trace.filter Mark.tells := h
  simp only [Silent, World.note, List.filter_cons, h]

theorem aside (h : Aside w v) : Silent w v := by
  obtain ⟨ms, hms, hm⟩ := h.trace
  have hnone : ms.filter Mark.tells = [] := by
    rw [List.filter_eq_nil_iff]
    intro m hmem
    simp [Mark.tells_of_isAside (hms m hmem)]
  rw [Silent, hm, List.filter_append, hnone, List.nil_append]

theorem attach (w : World) (c name : String) :
    Silent w (w.attach setup c (.user name)).2 := by
  unfold World.attach
  split
  · exact same rfl
  · split <;> simp [Silent, updateTask, spawn, World.count, World.note, Mark.tells,
      Listener.isUpdater]

theorem detach (w : World) (c : String) (l : Listener) : Silent w (w.detach c l).2.2 := by
  unfold World.detach
  split
  · exact same rfl
  · dsimp only
    split <;> simp [Silent, cancel, updateTask, World.note, Mark.tells]
  · simp [Silent, World.note, Mark.tells]

end Silent

/-- Neither calls nor caches change, and no mark is made that tells of messages. -/
structure Beside (w v : World) : Prop where
  calls : v.calls = w.calls
  caches : v.caches = w.caches
  events : v.counters.events = w.counters.events
  silent : Silent w v

namespace Beside

variable {w v : World}

theorem same (hcalls : v.calls = w.calls) (hcaches : v.caches = w.caches)
    (hcount : v.counters.events = w.counters.events) (ht : v.trace = w.trace) : Beside w v :=
  ⟨hcalls, hcaches, hcount, .same ht⟩

theorem refl (w : World) : Beside w w := same rfl rfl rfl rfl

theorem cell (h : Beside w v) (c : String) : v.cell c = w.cell c := by
  rw [World.cell, h.caches, World.cell]

theorem attach (w : World) (c name : String) :
    Beside w (w.attach setup c (.user name)).2 := by
  have hsilent := @Silent.attach setup w c name
  unfold World.attach at hsilent ⊢
  split
  · exact refl w
  · next hopen =>
    rw [if_neg hopen] at hsilent
    split <;> next hj =>
      rw [hj] at hsilent
      exact ⟨rfl, rfl, rfl, hsilent⟩

theorem detach (w : World) (c : String) (l : Listener) : Beside w (w.detach c l).2.2 := by
  have hsilent := Silent.detach w c l
  unfold World.detach at hsilent ⊢
  generalize w.listeners.remove c l = r at hsilent ⊢
  obtain ⟨left, listeners⟩ := r
  cases left with
  | none => exact ⟨rfl, rfl, rfl, hsilent⟩
  | some n =>
    cases n with
    | zero =>
      dsimp only at hsilent ⊢
      cases hh : w.handles.get? c <;>
        (rw [hh] at hsilent; exact ⟨rfl, rfl, rfl, hsilent⟩)
    | succ n => exact ⟨rfl, rfl, rfl, hsilent⟩

theorem sendAll (key : String) (ms : List String) (w : World) (n : Nat) :
    Beside w (w.sendAll key n ms).1 := by
  induction ms generalizing w n with
  | nil => exact refl w
  | cons m rest ih =>
    unfold World.sendAll
    split
    · exact refl w
    · next n' store _ =>
      have hrest := ih { w with store } n'
      exact ⟨hrest.calls, hrest.caches, hrest.events, hrest.silent⟩

/-- A command to the store. -/
theorem perform {α : Type} (w : World) (who : Actor) (call : StoreCall)
    (command : Memory → Except Fault (α × Memory)) :
    Beside w (w.perform who call command).2 := by
  rcases perform_cases w who call command with ⟨f, faults, h⟩ | ⟨a, store, faults, -, h⟩ <;>
    rw [h] <;> exact ⟨rfl, rfl, rfl, by simp [Silent, World.note, Mark.tells]⟩

end Beside

/-- No cache is refilled and none is declared loaded. -/
structure Light (setup : Setup) (w v : World) : Prop where
  edits : Edits setup w v
  calls : v.calls = w.calls
  members : ∀ c, (v.caches.entry c).members = (w.caches.entry c).members
  loaded : ∀ c, v.cell c = .loaded → w.cell c = .loaded
  events : v.counters.events = w.counters.events
  silent : Silent w v

namespace Light

variable {w v : World}

theorem beside (h : Edits setup w v) (hb : Beside w v) : Light setup w v :=
  ⟨h, hb.calls, fun c => by rw [hb.caches], fun c hc => hb.cell c ▸ hc, hb.events, hb.silent⟩

theorem refl (w : World) : Light setup w w := beside (.refl w) (.refl w)

theorem trans {a b c : World} (h : Light setup a b) (h' : Light setup b c) : Light setup a c :=
  ⟨h.edits.trans h'.edits, h'.calls.trans h.calls, fun k => (h'.members k).trans (h.members k),
    fun k hk => h.loaded k (h'.loaded k hk), h'.events.trans h.events, h.silent.trans h'.silent⟩

theorem updateCell (w : World) (c : String) {f : Cell Actor → Cell Actor}
    (hf : ∀ cell, f cell = .loaded → cell = .loaded) : Light setup w (w.updateCell c f) := by
  refine ⟨.aside (.updateCell w c f), rfl, members_updateCell w c f, fun c' hc => ?_, rfl, .same rfl⟩
  rw [cell, cell_updateCell] at hc
  split at hc
  · exact hf _ hc
  · exact hc

theorem failLoad (w : World) (load : Load) (f : Fault) : Light setup w (w.failLoad load f).1 :=
  updateCell w load.cluster fun _ => Cell.handOver_eq_loaded

end Light

/-- What an actor may have in mind after a step that changes neither hashes nor caches. -/
def Resolves (w : World) (who : Actor) (before : Option Intent) : Intent → Prop
  | .write e => e.address.isPlain = true
  | .read c => (w.cell c).owner? = some who
  | .fill c => before = some (.read c)
  | .announce _ | .start _ => False

/-- What a call of an actor does that had something in mind, and what it has in mind then. A loose
one may change hashes and channels in any way. -/
inductive Deed (setup : Setup) (loose : Prop) (who : Actor) (w : World) (before : Option Intent) :
    World → Option Intent → Prop where
  | light {v : World} {after : Option Intent} (h : Light setup w v)
      (hs : loose ∨ w.store.Still v.store) (hb : ∀ c, before ≠ some (.start c))
      (hc : ∀ c, v.cell c = w.cell c ∨ v.cell c = (w.cell c).enter who ∨
        before = some (.read c) ∧ after = none ∧ v.cell c = (w.cell c).handOver)
      (ha : ∀ x, after = some x → before = some x ∨ v.Resolves who before x) :
      Deed setup loose who w before v after
  | wrote {v : World} {e : Event} (h : Light setup w v) (hb : before = some (.write e))
      (hc : ∀ c, v.cell c = w.cell c)
      (hs : Memory.Wrote setup.config.ownKey e w.store v.store) :
      Deed setup loose who w before v (some (.announce e))
  | announced {v : World} {e : Event} (h : Light setup w v) (hb : before = some (.announce e))
      (hc : ∀ c, v.cell c = w.cell c)
      (hs : Memory.Announced setup.config.ownKey e w.store v.store) :
      Deed setup loose who w before v none
  | refilled {load : Load} {fields : List (String × String)}
      (hb : before = some (.fill load.cluster)) :
      Deed setup loose who w before (w.takeSnapshot setup load fields).1
        (w.takeSnapshot setup load fields).2.intent?
  | started {load : Load} (hb : before = some (.start load.cluster)) :
      Deed setup loose who w before (w.awaitStart load).1 (w.awaitStart load).2.intent?

variable {loose : Prop}

/-- A call that changes neither hashes nor caches and has nothing in mind. -/
theorem Deed.quiet {w v : World} {who : Actor} {before : Option Intent} (h : Edits setup w v)
    (he : Beside w v) (hb : ∀ c, before ≠ some (.start c)) (hs : loose ∨ w.store.Still v.store) :
    Deed setup loose who w before v none :=
  .light (.beside h he) hs hb (fun c => .inl (he.cell c)) fun _ hx => by cases hx

/-! ## Beginning -/

theorem beginChange_deed (w : World) (who : Actor) (k : EventKind) (text : String) :
    Deed setup loose who w none (w.beginChange k text).1 (w.beginChange k text).2.intent? := by
  rw [beginChange_fst]
  refine .light (.refl w) (.inr (.refl _)) (by simp) (fun _ => .inl rfl) fun x hx => .inr ?_
  unfold beginChange at hx
  split at hx
  · cases hx
  · next a ha =>
    have hplain : a.isPlain = true := by
      unfold Address.ofText at ha
      split at ha
      · next hread =>
        cases ha
        exact Address.isPlain_of_ofText? hread
      · cases ha
    split at hx
    · cases hx
    · split at hx
      · cases hx
      · cases hx
        exact hplain

theorem beginLoad_deed (w : World) (who : Actor) (key : String) (view : Bool) :
    Deed setup loose who w none (w.beginLoad setup who key view).1
      (w.beginLoad setup who key view).2.intent? := by
  unfold beginLoad
  split
  · exact .quiet (.refl w) (.refl w) (by simp) (.inr (.refl _))
  · dsimp only
    have hcount : Beside w (w.count .lookups) := .same rfl rfl rfl rfl
    split
    · exact .quiet (.aside (.count w .lookups)) hcount (by simp) (.inr (.refl _))
    · next c _ =>
      have hlight : Light setup w ((w.count .lookups).updateCell c (Cell.enter who)) :=
        .trans (.beside (.aside (.count w .lookups)) hcount)
          (.updateCell _ c fun _ => Cell.enter_eq_loaded)
      have hentered : ∀ {p : Progress}, (∀ x, p.intent? = some x → x = .read c ∧
          (((w.count .lookups).updateCell c (Cell.enter who)).cell c).owner? = some who) →
          Deed setup loose who w none ((w.count .lookups).updateCell c (Cell.enter who))
            p.intent? := by
        intro p hp
        refine .light hlight (.inr (.refl _)) (by simp) (fun c' => ?_) fun x hx => .inr ?_
        · rw [cell, cell_updateCell]
          split
          · exact .inr (.inl rfl)
          · exact .inl rfl
        · obtain ⟨rfl, howner⟩ := hp x hx
          exact howner
      split
      · exact hentered fun x hx => by cases hx
      · next owner line hcell =>
        split
        · next howner =>
          refine hentered fun x hx => ⟨(Option.some.inj hx).symm, ?_⟩
          rw [cell, hcell, ← howner]
          rfl
        · exact hentered fun x hx => by cases hx
      · exact hentered fun x hx => by cases hx

theorem begin_deed (w : World) (who : Actor) (a : Action) :
    Deed setup (a.isOutside = true) who w none (w.begin setup who a).1
      (w.begin setup who a).2.intent? := by
  have hedits := @begin_edits setup w who a
  have quiet : ∀ {v : World}, Edits setup w v → Beside w v →
      (a.isOutside = true ∨ w.store.Still v.store) →
      Deed setup (a.isOutside = true) who w none v none := fun h he hs => .quiet h he (by simp) hs
  have stays : Deed setup (a.isOutside = true) who w none w none :=
    quiet (.refl w) (.refl w) (.inr (.refl _))
  cases a with
  | register text => exact beginChange_deed w who .register text
  | unregister text => exact beginChange_deed w who .unregister text
  | lookup key => exact beginLoad_deed w who key false
  | view key => exact beginLoad_deed w who key true
  | «attach» c l =>
    exact quiet hedits (.attach w c l) (.inr (.quiet (by rw [begin, attach_store])
      fun key => by rw [begin, attach_store]))
  | detach c l guarded =>
    have hrest := Beside.detach w c (.user l)
    have hstore := detach_store w c (.user l)
    simp only [begin, beginDetach] at hedits ⊢
    split
    · exact stays
    · next hopen =>
      rw [if_neg hopen] at hedits
      split <;> next hd =>
        rw [hd] at hedits hrest hstore
        exact quiet hedits hrest (.inr (by rw [← hstore]; exact .refl _))
  | awaitSettled c =>
    simp only [begin, beginWatch]
    split
    · exact stays
    · split <;> exact stays
  | awaitStarted c =>
    simp only [begin, beginWatch]
    split
    · exact stays
    · split <;> exact stays
  | shutdown =>
    have h : Edits setup w w.close.2 := .close w
    have hrest : Beside w w.close.2 := .same rfl rfl rfl rfl
    simp only [begin, drain]
    split <;> exact quiet h hrest (.inr (.refl _))
  | readHash key =>
    simp only [begin]
    split <;> exact stays
  | disconnect key =>
    exact quiet hedits (.same rfl rfl rfl rfl) (.inr (.disconnect w.store key))
  | setUnavailable value =>
    exact quiet hedits (.same rfl rfl rfl rfl) (.inr (.quiet rfl fun _ => rfl))
  | putField key field value =>
    simp only [begin] at hedits ⊢
    split <;> next hs =>
      rw [hs] at hedits
      exact quiet hedits (.same rfl rfl rfl rfl) (.inl rfl)
  | dropField key field =>
    simp only [begin] at hedits ⊢
    split <;> next hs =>
      rw [hs] at hedits
      exact quiet hedits (.same rfl rfl rfl rfl) (.inl rfl)
  | send key ms => exact quiet hedits (.sendAll key ms w 0) (.inl rfl)
  | _ => exact quiet hedits (.same rfl rfl rfl rfl) (.inr (.refl _))

/-! ## Going on -/

theorem perform_tasks {α : Type} (w : World) (who : Actor) (call : StoreCall)
    (command : Memory → Except Fault (α × Memory)) :
    (w.perform who call command).2.tasks = w.tasks := by
  rcases perform_cases w who call command with ⟨f, faults, h⟩ | ⟨a, store, faults, -, h⟩ <;>
    rw [h] <;> rfl

/-- A command fails and has no effect, or it has one on the store. -/
theorem perform_store {α : Type} (w : World) (who : Actor) (call : StoreCall)
    (command : Memory → Except Fault (α × Memory)) :
    (∃ f, (w.perform who call command).1 = .error f ∧
      (w.perform who call command).2.store = w.store) ∨
    ∃ a, (w.perform who call command).1 = .ok a ∧
      command w.store = .ok (a, (w.perform who call command).2.store) := by
  rcases perform_cases w who call command with ⟨f, faults, h⟩ | ⟨a, store, faults, hc, h⟩
  · exact .inl ⟨f, by rw [h], by rw [h]; rfl⟩
  · exact .inr ⟨a, by rw [h], by rw [h]; exact hc⟩

theorem ok_of_map {α β : Type} {r : Except Fault α} {f : α → β} {b : β} (h : r.map f = .ok b) :
    ∃ a, r = .ok a ∧ f a = b := by
  cases r with
  | error _ => cases h
  | ok a => exact ⟨a, rfl, Except.ok.inj h⟩

/-- A reading changes nothing; the reply is the whole hash. -/
theorem readFields_store (w : World) (who : Actor) (key : String) :
    (w.readFields who key).2.store = w.store ∧
      ∀ fields, (w.readFields who key).1 = .ok fields → fields = (w.store.hash key).entries := by
  unfold readFields
  rcases perform_store w who (.readFields key) fun s => (s.fields key).map (·, s) with
    ⟨f, hr, hs⟩ | ⟨a, hr, hs⟩
  · exact ⟨hs, fun fields h => by rw [hr] at h; cases h⟩
  · obtain ⟨fields, hfields, hpair⟩ := ok_of_map hs
    obtain ⟨rfl, hstore⟩ := Prod.ext_iff.1 hpair
    refine ⟨hstore.symm, fun fields' h => ?_⟩
    rw [hr] at h
    cases h
    exact (Memory.attempt_ok hfields).symm

theorem write_deed (w : World) (who : Actor) (e : Event) :
    Deed setup loose who w (some (.write e)) (w.write setup who e).1
      (w.write setup who e).2.intent? := by
  have hedits : Edits setup w (w.write setup who e).1 := .aside (write_aside w who e)
  have failed : ∀ {v : World}, Edits setup w v → Beside w v → v.store = w.store →
      Deed setup loose who w (some (.write e)) v none :=
    fun h he hs => .quiet h he (by simp) (.inr (hs ▸ .refl _))
  have done : ∀ {v : World}, Edits setup w v → Beside w v →
      Memory.Wrote setup.config.ownKey e w.store v.store →
      Deed setup loose who w (some (.write e)) v (some (.announce e)) :=
    fun h he hs => .wrote (.beside h he) rfl he.cell hs
  unfold write at hedits ⊢
  cases hk : e.kind with
  | register =>
    have hcalls := Beside.perform w who
      (.setField setup.config.ownKey e.address.text setup.config.identity)
      fun s => (s.setField setup.config.ownKey e.address.text setup.config.identity).map ((), ·)
    have hstore := perform_store w who
      (.setField setup.config.ownKey e.address.text setup.config.identity)
      fun s => (s.setField setup.config.ownKey e.address.text setup.config.identity).map ((), ·)
    simp only [hk, setField] at hedits ⊢
    rcases hstore with ⟨f, hr, hs⟩ | ⟨a, hr, hs⟩
    · simp only [hr] at hedits ⊢
      exact failed hedits hcalls hs
    · simp only [hr] at hedits ⊢
      obtain ⟨m, hm, hpair⟩ := ok_of_map hs
      cases hpair
      exact done hedits hcalls (Memory.setField_wrote hk hm)
  | unregister =>
    have hcalls := Beside.perform w who (.deleteField setup.config.ownKey e.address.text)
      fun s => s.deleteField setup.config.ownKey e.address.text
    have hstore := perform_store w who (.deleteField setup.config.ownKey e.address.text)
      fun s => s.deleteField setup.config.ownKey e.address.text
    simp only [hk, deleteField] at hedits ⊢
    rcases hstore with ⟨f, hr, hs⟩ | ⟨a, hr, hs⟩
    · simp only [hr, Except.map] at hedits ⊢
      exact failed hedits hcalls hs
    · simp only [hr, Except.map] at hedits ⊢
      exact done hedits hcalls (Memory.deleteField_wrote hk hs)

theorem announce_deed (w : World) (who : Actor) (e : Event) :
    Deed setup loose who w (some (.announce e)) (w.announce setup who e).1
      (w.announce setup who e).2.intent? := by
  have hedits : Edits setup w (w.announce setup who e).1 := .aside (announce_aside w who e)
  have hrest := Beside.perform w who (.publish setup.config.ownKey e.encode)
    fun s => s.publish setup.config.ownKey e.encode
  have hstore := perform_store w who (.publish setup.config.ownKey e.encode)
    fun s => s.publish setup.config.ownKey e.encode
  unfold announce publishMessage at hedits ⊢
  generalize w.perform who (.publish setup.config.ownKey e.encode) (fun s =>
    s.publish setup.config.ownKey e.encode) = r at *
  obtain ⟨r, v⟩ := r
  have hrest : Beside w v := hrest
  rcases hstore with ⟨f, rfl, hs⟩ | ⟨n, rfl, hs⟩
  · have hs : v.store = w.store := hs
    exact .quiet hedits hrest (by simp) (.inr (hs ▸ .refl _))
  · refine .announced (.beside hedits ⟨hrest.calls, hrest.caches, ?_, hrest.silent⟩) rfl
      hrest.cell ⟨n, hs⟩
    cases e.kind <;> exact hrest.events

theorem read_deed (w : World) (who : Actor) (load : Load) :
    Deed setup loose who w (some (.read load.cluster)) (w.read who load).1
      (w.read who load).2.intent? := by
  have hrest : Beside w (w.readFields who (registryKey load.cluster)).2 := .perform w who _ _
  obtain ⟨hstore, -⟩ := readFields_store w who (registryKey load.cluster)
  have hlight : Light setup w (w.readFields who (registryKey load.cluster)).2 :=
    .beside (.aside (readFields_aside w who _)) hrest
  have hcells := hrest.cell
  unfold read
  generalize w.readFields who (registryKey load.cluster) = r at hstore hlight hcells
  obtain ⟨r, v⟩ := r
  have hs : v.store = w.store := hstore
  have hlight : Light setup w v := hlight
  cases r with
  | error f =>
    refine .light (hlight.trans (.failLoad v load f)) (.inr (by rw [← hs]; exact .refl _))
      (by simp) (fun c => ?_) fun _ hx => by cases hx
    have hfail : (v.failLoad load f).1.cell c =
        if load.cluster = c then (v.cell c).handOver else v.cell c := cell_updateCell v _ _ c
    rw [hcells c] at hfail
    by_cases hc : load.cluster = c
    · rw [if_pos hc] at hfail
      exact .inr (.inr ⟨by rw [hc], rfl, hfail⟩)
    · rw [if_neg hc] at hfail
      exact .inl hfail
  | ok fields =>
    refine .light hlight (.inr (hs ▸ .refl _)) (by simp) (fun c => .inl (hcells c))
      fun x hx => .inr ?_
    cases hx
    rfl

theorem resume_deed {w v : World} {who : Actor} {stage : Stage} {p : Progress}
    (h : w.resume setup who stage = some (v, p)) :
    Deed setup loose who w stage.intent? v p.intent? := by
  have gate : ∀ {m : Method} {g : Gate} {hold : Stage} {go : World × Progress},
      w.throughGate m g hold go = some (v, p) → hold.intent? = stage.intent? →
      (∀ c, stage.intent? ≠ some (.start c)) →
      Deed setup loose who w stage.intent? go.1 go.2.intent? →
      Deed setup loose who w stage.intent? v p.intent? := by
    intro m g hold go hgate hhold hstart hgo
    rcases throughGate_cases hgate with hr | hr
    · cases hr
      exact .light (.refl w) (.inr (.refl _)) hstart (fun _ => .inl rfl)
        fun x hx => .inl (hhold ▸ hx)
    · subst hr
      exact hgo
  have quiet : ∀ {p : Progress}, p.intent? = none → (∀ c, stage.intent? ≠ some (.start c)) →
      Deed setup loose who w stage.intent? w p.intent? :=
    fun hp hb => by rw [hp]; exact .quiet (.refl w) (.refl w) hb (.inr (.refl _))
  cases stage with
  | writing e g => exact gate h rfl (by simp [Stage.intent?]) (write_deed w who e)
  | announcing e g => exact gate h rfl (by simp [Stage.intent?]) (announce_deed w who e)
  | reading load g => exact gate h rfl (by simp [Stage.intent?]) (read_deed w who load)
  | replied load fields g => exact gate h rfl (by simp [Stage.intent?]) (.refilled rfl)
  | queued load =>
    simp only [resume] at h
    split at h
    · cases h
      exact quiet rfl (by simp [Stage.intent?])
    · next hcell =>
      split at h
      · next howner =>
        cases h
        refine .light (.refl w) (.inr (.refl _)) (by simp [Stage.intent?]) (fun _ => .inl rfl)
          fun x hx => .inr ?_
        cases hx
        show (w.cell load.cluster).owner? = some who
        rw [cell, hcell, ← howner]
        rfl
      · cases h
    · cases h
  | starting load seen =>
    simp only [resume] at h
    split at h
    · split at h
      · cases h
      · have hr : w.awaitStart load = (v, p) := Option.some.inj h
        have hdeed : Deed setup loose who w (some (.start load.cluster)) (w.awaitStart load).1
            (w.awaitStart load).2.intent? := .started rfl
        rw [hr] at hdeed
        exact hdeed
    · cases h
  | watching c goal seen =>
    simp only [resume, beginWatch] at h
    split at h
    · split at h
      · cases h
      · have hr := Option.some.inj h
        split at hr
        · cases hr
          exact quiet rfl (by simp [Stage.intent?])
        · split at hr <;> (cases hr; exact quiet rfl (by simp [Stage.intent?]))
    · cases h
  | joining id =>
    simp only [resume] at h
    split at h
    · cases h
      exact quiet rfl (by simp [Stage.intent?])
    · cases h
  | draining ids =>
    simp only [resume, drain] at h
    split at h
    · split at h
      · have hr := Option.some.inj h
        split at hr <;> (cases hr; exact quiet rfl (by simp [Stage.intent?]))
      · cases h
    · cases h
      exact quiet rfl (by simp [Stage.intent?])

end World

end Muster
