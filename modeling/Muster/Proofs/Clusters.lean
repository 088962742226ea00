import Muster.Proofs.Calls

/-!
# Clusters do not interfere

One store, one set of listeners, one table of tasks and one of caches serve all clusters of a client.
What a move is about is told by the cluster that an action, a stage or a task names (`concerns`).
Each operation leaves everything that belongs to another cluster as it is (`Undisturbed`), so every
move does.
-/
namespace Muster

theorem registryKey_inj {c d : String} : registryKey c = registryKey d ↔ c = d := by
  simp [registryKey]

/-! ## Keys of the store -/

/-- The hash and the channel of a key stay as they are. -/
structure Memory.Intact (key : String) (m m' : Memory) : Prop where
  hash : m'.hash key = m.hash key
  channel : m'.channels.get? key = m.channels.get? key

namespace Memory.Intact

variable {key key' field value message : String} {m m' : Memory} {s : Nat} {n : Nat}

theorem setField (hk : key' ≠ key) (h : m.setField key' field value = .ok m') : Intact key m m' := by
  cases attempt_ok h
  exact ⟨by simp [hash_put, hk], rfl⟩

theorem deleteField {had : Bool} (hk : key' ≠ key)
    (h : m.deleteField key' field = .ok (had, m')) : Intact key m m' := by
  cases attempt_ok h
  exact ⟨by simp [Memory.hash, hk], rfl⟩

theorem send (hk : key' ≠ key) (m : Memory) (i : Item) : Intact key m (m.send key' i) :=
  ⟨rfl, by simp [Memory.send, hk]⟩

theorem publish (hk : key' ≠ key) (h : m.publish key' message = .ok (n, m')) : Intact key m m' := by
  cases attempt_ok h
  exact send hk m _

theorem subscribe (hk : key' ≠ key) (h : m.subscribe key' = .ok (s, m')) : Intact key m m' := by
  cases attempt_ok h
  exact ⟨rfl, by simp [hk]⟩

theorem fields {entries : List (String × String)} (h : (m.fields key').map (·, m) = .ok (entries, m')) :
    Intact key m m' := by
  cases hf : m.fields key' with
  | error f => simp [hf, Except.map] at h
  | ok es =>
    have hm : m = m' := by
      rw [hf] at h
      exact (Prod.ext_iff.1 (Except.ok.inj h)).2
    exact hm ▸ ⟨rfl, rfl⟩

theorem next {r : Reading} (hk : key' ≠ key) (h : m.next key' s = (r, m')) : Intact key m m' := by
  unfold Memory.next at h
  split at h
  · cases h
    exact ⟨rfl, rfl⟩
  · cases h
    exact ⟨rfl, by simp [hk]⟩

theorem close (hk : key' ≠ key) (m : Memory) (s : Nat) : Intact key m (m.close key' s) :=
  ⟨rfl, by simp [Memory.close, hk]⟩

end Memory.Intact

/-! ## What a move is about -/

/-- The action names the cluster: itself, by its key in the store, or by a lookup key that is
mapped to it. -/
def Action.names (setup : Setup) (c : String) : Action → Bool
  | .register _ | .unregister _ => setup.config.cluster == c
  | .lookup key | .view key => setup.source.cluster? key == some c
  | .attach cluster _ | .detach cluster _ _ | .awaitSettled cluster | .awaitStarted cluster
  | .listenerCount cluster => cluster == c
  | .putField key _ _ | .dropField key _ | .readHash key | .send key _ | .disconnect key
  | .subscribers key => key == registryKey c
  | _ => false

/-- The call that stands here names the cluster. -/
def Stage.names (setup : Setup) (c : String) : Stage → Bool
  | .writing _ _ | .announcing _ _ => setup.config.cluster == c
  | .queued load | .reading load _ | .replied load _ _ | .starting load _ => load.cluster == c
  | .watching cluster _ _ => cluster == c
  | .joining _ | .draining _ => false

/-- The next step of the task is about the cluster. A call that its listener makes counts for the
cluster that the call names; a cancelled task gives such a call up and stops. -/
def Task.concerns (setup : Setup) (c : String) (t : Task) : Bool :=
  if t.cancelled then t.cluster == c || t.position.stage?.any (Stage.names setup c)
  else
    match t.position.action?, t.position.stage? with
    | some a, _ => a.names setup c
    | none, some stage => stage.names setup c
    | none, none => t.cluster == c

namespace World

/-- The move is about the cluster. -/
def concerns (setup : Setup) (w : World) (c : String) : Move → Bool
  | .ask _ a => a.names setup c
  | .step (.call id) | .drop id => (w.calls.get? id).any (Stage.names setup c)
  | .step (.task id) => (w.tasks[id]?).any (Task.concerns setup c)
  | .clear _ | .free _ | .elapse _ => false

/-- All that belongs to the cluster stays as it is. -/
structure Undisturbed (c : String) (w w' : World) : Prop where
  listeners : w'.listeners.of c = w.listeners.of c
  pending : w'.listeners.pending c = w.listeners.pending c
  handle : w'.handles.get? c = w.handles.get? c
  /-- Status and generation. -/
  slot : w'.slots.get? c = w.slots.get? c
  /-- Members and cell. -/
  cache : w'.caches.get? c = w.caches.get? c
  hash : w'.store.hash (registryKey c) = w.store.hash (registryKey c)
  /-- What was sent, and the open streams. -/
  channel : w'.store.channels.get? (registryKey c) = w.store.channels.get? (registryKey c)
  /-- The tasks of the cluster at most move on in a call that a listener has made. -/
  task : ∀ (id : Nat) (t : Task), w.tasks[id]? = some t → t.cluster = c →
    ∃ p, w'.tasks[id]? = some { t with position := p } ∧ (p = .ended ↔ t.position = .ended)
  fresh : ∀ (id : Nat) (t' : Task), w'.tasks[id]? = some t' → t'.cluster = c →
    ∃ t : Task, w.tasks[id]? = some t ∧ t.cluster = c

/-- The task of this number is one of another cluster. -/
def Foreign (w : World) (c : String) (id : Nat) : Prop :=
  ∀ t : Task, w.tasks[id]? = some t → t.cluster ≠ c

/-- The task of a handle is one of its cluster. -/
theorem Supervised.foreign {w : World} {c d : String} {id : Nat} (h : Supervised w)
    (hh : w.handles.get? d = some id) (hd : d ≠ c) : w.Foreign c id := by
  intro t ht
  obtain ⟨ch, _, hch, hc, -⟩ := h.handle hh
  rw [charge?_of_task ht] at hch
  cases hch
  exact fun htc => hd (hc.symm.trans htc)

namespace Undisturbed

variable {setup : Setup} {c d : String} {w v w' : World} {id : Nat} {t : Task}

theorem refl (w : World) : Undisturbed c w w :=
  ⟨rfl, rfl, rfl, rfl, rfl, rfl, rfl, fun _ t ht _ => ⟨t.position, ht, Iff.rfl⟩,
    fun _ t' ht hc => ⟨t', ht, hc⟩⟩

theorem trans {a b e : World} (h : Undisturbed c a b) (h' : Undisturbed c b e) :
    Undisturbed c a e := by
  refine ⟨h'.listeners.trans h.listeners, h'.pending.trans h.pending, h'.handle.trans h.handle,
    h'.slot.trans h.slot, h'.cache.trans h.cache, h'.hash.trans h.hash,
    h'.channel.trans h.channel, fun id t ht hc => ?_, fun id t' ht' hc => ?_⟩
  · obtain ⟨p, hp, hend⟩ := h.task id t ht hc
    obtain ⟨q, hq, hend'⟩ := h'.task id _ hp hc
    exact ⟨q, hq, hend'.trans hend⟩
  · obtain ⟨t, ht, hc⟩ := h'.fresh id t' ht' hc
    exact h.fresh id t ht hc

theorem foreign (h : Undisturbed c w v) (hf : w.Foreign c id) : v.Foreign c id := by
  intro t' ht' hc
  obtain ⟨t, ht, hc⟩ := h.fresh id t' ht' hc
  exact hf t ht hc

/-! ## Small changes -/

/-- The tasks stay as they are, and so does what else belongs to the cluster. -/
theorem same (h : Undisturbed c w v) (hl : w'.listeners.of c = v.listeners.of c)
    (hp : w'.listeners.pending c = v.listeners.pending c)
    (hh : w'.handles.get? c = v.handles.get? c) (hs : w'.slots.get? c = v.slots.get? c)
    (hc : w'.caches.get? c = v.caches.get? c)
    (hhash : w'.store.hash (registryKey c) = v.store.hash (registryKey c))
    (hchannel : w'.store.channels.get? (registryKey c) = v.store.channels.get? (registryKey c))
    (ht : w'.tasks = v.tasks) : Undisturbed c w w' := by
  refine h.trans ⟨hl, hp, hh, hs, hc, hhash, hchannel, fun id t hid _ => ⟨t.position, ?_, Iff.rfl⟩,
    fun id t' hid hc => ⟨t', ?_, hc⟩⟩
  · rw [ht, hid]
  · rw [← ht, hid]

/-- Nothing that belongs to any cluster is changed. -/
theorem quiet (h : Undisturbed c w v) (hl : w'.listeners = v.listeners)
    (hh : w'.handles = v.handles) (hs : w'.slots = v.slots) (hc : w'.caches = v.caches)
    (hst : w'.store = v.store) (ht : w'.tasks = v.tasks) : Undisturbed c w w' :=
  h.same (by rw [hl]) (by rw [hl]) (by rw [hh]) (by rw [hs]) (by rw [hc]) (by rw [hst])
    (by rw [hst]) ht

theorem note (h : Undisturbed c w v) (m : Mark) : Undisturbed c w (v.note m) :=
  h.quiet rfl rfl rfl rfl rfl rfl

theorem count (h : Undisturbed c w v) (k : Counter) : Undisturbed c w (v.count k) :=
  h.quiet rfl rfl rfl rfl rfl rfl

theorem stored (h : Undisturbed c w v) {store : Memory}
    (hi : v.store.Intact (registryKey c) store) : Undisturbed c w { v with store } :=
  h.same rfl rfl rfl rfl rfl hi.hash hi.channel rfl

theorem perform {α : Type} (h : Undisturbed c w v) (who : Actor) (call : StoreCall)
    (command : Memory → Except Fault (α × Memory))
    (hi : ∀ a store, command v.store = .ok (a, store) → v.store.Intact (registryKey c) store) :
    Undisturbed c w (v.perform who call command).2 := by
  rcases perform_cases v who call command with ⟨f, faults, hp⟩ | ⟨a, store, faults, hc, hp⟩
  · rw [hp]
    exact h.quiet rfl rfl rfl rfl rfl rfl
  · rw [hp]
    have hstore := h.stored (hi a store hc)
    exact hstore.quiet rfl rfl rfl rfl rfl rfl

theorem updateCache (h : Undisturbed c w v) (hd : d ≠ c)
    (f : Membership Actor → Membership Actor) : Undisturbed c w (v.updateCache d f) :=
  h.same rfl rfl rfl rfl (by simp [World.updateCache, Caches.update, hd]) rfl rfl rfl

theorem updateCell (h : Undisturbed c w v) (hd : d ≠ c) (f : Cell Actor → Cell Actor) :
    Undisturbed c w (v.updateCell d f) := h.updateCache hd _

theorem publish (h : Undisturbed c w v) (ht : t.cluster ≠ c) (s : Status) :
    Undisturbed c w (v.publish id t s) := by
  unfold World.publish
  split
  · exact h
  · split
    · exact h.same rfl rfl rfl (by simp [World.note, ht]) rfl rfl rfl rfl
    · exact h

theorem takePending (h : Undisturbed c w v) (hd : d ≠ c) :
    Undisturbed c w (v.takePending id d).2 :=
  h.same rfl (by simp [World.takePending, World.note, hd]) rfl rfl rfl rfl rfl rfl

/-- A task of another cluster is changed. -/
theorem updateTask (h : Undisturbed c w v) (hf : w.Foreign c id) (f : Task → Task)
    (hcl : ∀ t, (f t).cluster = t.cluster) : Undisturbed c w (v.updateTask id f) := by
  have hfv := h.foreign hf
  refine h.trans ⟨rfl, rfl, rfl, rfl, rfl, rfl, rfl, fun j t ht hc => ⟨t.position, ?_, Iff.rfl⟩,
    fun j t' ht' hc => ?_⟩
  · have hj : id ≠ j := fun hj => hfv t (hj ▸ ht) hc
    simp [World.updateTask, hj, ht]
  · simp only [World.updateTask, List.getElem?_modify] at ht'
    obtain ⟨t, ht, rfl⟩ := Option.map_eq_some_iff.1 ht'
    refine ⟨t, ht, ?_⟩
    split at hc
    · rw [← hcl, hc]
    · exact hc

theorem cancel (h : Undisturbed c w v) (hf : w.Foreign c id) : Undisturbed c w (v.cancel id) :=
  (h.updateTask hf (fun t => { t with cancelled := true }) fun _ => rfl).note _

/-- A task moves on, whatever its cluster, but does not end. -/
theorem moveOn (h : Undisturbed c w v) {p : Position} (hp : ∀ t : Task, v.tasks[id]? = some t →
    (p = .ended ↔ t.position = .ended)) : Undisturbed c w (v.moveTask id p) := by
  refine h.trans ⟨rfl, rfl, rfl, rfl, rfl, rfl, rfl, fun j t ht hc => ?_, fun j t' ht' hc => ?_⟩
  · by_cases hj : id = j
    · subst hj
      exact ⟨p, by simp [World.moveTask, World.updateTask, ht], hp t ht⟩
    · exact ⟨t.position, by simp [World.moveTask, World.updateTask, hj, ht], Iff.rfl⟩
  · simp only [World.moveTask, World.updateTask, List.getElem?_modify] at ht'
    obtain ⟨t, ht, rfl⟩ := Option.map_eq_some_iff.1 ht'
    refine ⟨t, ht, ?_⟩
    split at hc <;> exact hc

theorem moveTask (h : Undisturbed c w v) (hf : w.Foreign c id) (p : Position) :
    Undisturbed c w (v.moveTask id p) := h.updateTask hf _ fun _ => rfl

/-! ## Listeners -/

theorem attach (h : Undisturbed c w v) (hs : Supervised v) (hd : d ≠ c) (l : Listener) :
    Undisturbed c w (v.attach setup d l).2 := by
  unfold World.attach
  split
  · exact h
  · rcases hs.joinable?_cases d with ⟨id, hj, hh⟩ | ⟨hj, -⟩
    · rw [hj]
      have hforeign : v.Foreign c id := hs.foreign hh hd
      have hlist : Undisturbed c v (({ v with
          listeners := (v.listeners.enqueue d l).add d l } : World).note (.attached d l true)) :=
        (refl v).same (by simp [World.note, hd]) (by simp [World.note, hd]) rfl rfl rfl rfl rfl rfl
      exact h.trans (hlist.updateTask hforeign _ fun _ => rfl)
    · rw [hj]
      refine h.trans ⟨by simp [spawn, World.note, World.count, hd], by simp [spawn, World.note, World.count],
        by simp [spawn, World.note, World.count, hd], by simp [spawn, World.note, World.count, hd],
        rfl, rfl, rfl, fun id t ht _ => ⟨t.position, ?_, Iff.rfl⟩, fun id t' ht' hc => ?_⟩
      · have hlt := (List.getElem?_eq_some_iff.1 ht).1
        simpa [spawn, World.note, World.count, List.getElem?_append_left hlt] using ht
      · simp only [spawn, World.note, World.count, List.getElem?_append] at ht'
        split at ht'
        · exact ⟨t', ht', hc⟩
        · rw [List.getElem?_singleton] at ht'
          split at ht'
          · cases ht'
            exact absurd hc hd
          · cases ht'

theorem detach (h : Undisturbed c w v) (hs : Supervised v) (hd : d ≠ c) (l : Listener) :
    Undisturbed c w (v.detach d l).2.2 := by
  by_cases hl : l ∈ v.listeners.of d
  · have hremoved : ∀ handles : Table String Nat, handles.get? c = v.handles.get? c →
        Undisturbed c v (({ v with listeners := (v.listeners.remove d l).2, handles } : World).note
          (.detached d l)) := fun handles hh =>
      (refl v).same (by simp [World.note, Listeners.of_remove hl, hd])
        (by simp [World.note, Listeners.pending_remove hl, hd]) hh rfl rfl rfl rfl rfl
    have herased : (v.handles.erase d).get? c = v.handles.get? c := by simp [hd]
    unfold World.detach
    split
    · exact h
    · next hr =>
      rw [hr] at hremoved
      dsimp only
      split
      · exact h.trans (hremoved _ herased)
      · next id hh =>
        have hforeign : v.Foreign c id := hs.foreign hh hd
        exact h.trans ((hremoved _ herased).cancel hforeign)
    · next hr =>
      rw [hr] at hremoved
      exact h.trans (hremoved _ rfl)
  · simpa [World.detach, Listeners.remove_of_not_mem hl] using h

/-! ## Calls -/

theorem failLoad (h : Undisturbed c w v) {load : Load} (hd : load.cluster ≠ c) (f : Fault) :
    Undisturbed c w (v.failLoad load f).1 := h.updateCell hd _

theorem finishLoad (h : Undisturbed c w v) {load : Load} (hd : load.cluster ≠ c) :
    Undisturbed c w (v.finishLoad load).1 := h.updateCell hd fun _ => .loaded

theorem awaitStart (h : Undisturbed c w v) {load : Load} (hd : load.cluster ≠ c) :
    Undisturbed c w (v.awaitStart load).1 := by
  unfold World.awaitStart
  split
  · split
    · exact h.finishLoad hd
    · exact h
  · exact h.finishLoad hd

theorem beginLoad (h : Undisturbed c w v) (who : Actor) {key : String} (view : Bool)
    (hd : setup.source.cluster? key ≠ some c) :
    Undisturbed c w (v.beginLoad setup who key view).1 := by
  unfold World.beginLoad
  split
  · exact h
  · dsimp only
    split
    · exact h.count _
    · next d hkey =>
      have hne : d ≠ c := fun hdc => hd (hdc ▸ hkey)
      have henter := (h.count .lookups).updateCell hne (Cell.enter who)
      split
      · exact henter
      · split <;> exact henter
      · exact henter

theorem beginWatch (h : Undisturbed c w v) (d : String) (goal : Goal) :
    Undisturbed c w (v.beginWatch d goal).1 := by
  unfold World.beginWatch
  split
  · exact h
  · split <;> exact h

theorem drain (h : Undisturbed c w v) (ids : List Nat) : Undisturbed c w (v.drain ids).1 := by
  unfold World.drain
  split <;> exact h

theorem takeSnapshot (h : Undisturbed c w v) (hs : Supervised v) {load : Load}
    (hd : load.cluster ≠ c) (fields : List (String × String)) :
    Undisturbed c w (v.takeSnapshot setup load fields).1 := by
  unfold World.takeSnapshot
  dsimp only
  generalize hu : ({ (v.updateCache load.cluster fun m => m.replace (addressesOf fields)) with
    updaters := (v.updateCache load.cluster fun m => m.replace (addressesOf fields)).updaters + 1 }
      : World) = u
  have hfilled : Undisturbed c w u :=
    hu ▸ (h.updateCache hd fun m => m.replace (addressesOf fields)).quiet rfl rfl rfl rfl rfl rfl
  have hsu : Supervised u := hu ▸ hs.rests (.quiet rfl rfl rfl rfl rfl)
  have hattached : Undisturbed c w (u.attach setup load.cluster
      (.updater load.cluster (v.updateCache load.cluster fun m =>
        m.replace (addressesOf fields)).updaters)).2 := hfilled.attach hsu hd _
  split
  · next hr =>
    rw [hr] at hattached
    exact hattached.failLoad hd _
  · next hr =>
    rw [hr] at hattached
    exact hattached.awaitStart hd

theorem sendAll (h : Undisturbed c w v) {key : String} (hk : key ≠ registryKey c)
    (ms : List String) (n : Nat) : Undisturbed c w (v.sendAll key n ms).1 := by
  induction ms generalizing v n with
  | nil => exact h
  | cons m rest ih =>
    unfold World.sendAll
    split
    · exact h
    · next hsend => exact ih (h.stored (.publish hk hsend)) _

theorem abandon (h : Undisturbed c w v) (who : Actor) {stage : Stage}
    (hd : stage.names setup c = false) : Undisturbed c w (v.abandon who stage) := by
  cases stage with
  | queued load | reading load | replied load | starting load =>
    exact h.updateCell (by simpa [Stage.names] using hd) _
  | _ => exact h

theorem write (h : Undisturbed c w v) (who : Actor) (e : Event) (hd : setup.config.cluster ≠ c) :
    Undisturbed c w (v.write setup who e).1 := by
  have hk : setup.config.ownKey ≠ registryKey c := fun heq => hd (registryKey_inj.1 heq)
  have hset : Undisturbed c w
      (v.setField who setup.config.ownKey e.address.text setup.config.identity).2 :=
    h.perform who _ _ fun _ m hm => by
      cases hs : v.store.setField setup.config.ownKey e.address.text setup.config.identity with
      | error f => simp [hs, Except.map] at hm
      | ok m' =>
        have heq : m' = m := by simpa [hs, Except.map] using hm
        exact heq ▸ .setField hk hs
  have hdelete : Undisturbed c w (v.deleteField who setup.config.ownKey e.address.text).2 :=
    h.perform who _ _ fun _ _ hm => .deleteField hk hm
  unfold World.write
  cases e.kind <;> dsimp only <;> split <;> assumption

theorem announce (h : Undisturbed c w v) (who : Actor) (e : Event)
    (hd : setup.config.cluster ≠ c) : Undisturbed c w (v.announce setup who e).1 := by
  have hk : setup.config.ownKey ≠ registryKey c := fun heq => hd (registryKey_inj.1 heq)
  have hpublish : Undisturbed c w (v.publishMessage who setup.config.ownKey e.encode).2 :=
    h.perform who _ _ fun _ _ hm => .publish hk hm
  unfold World.announce
  split <;> next hr => rw [hr] at hpublish; first | exact hpublish | exact hpublish.count _

theorem readFields (h : Undisturbed c w v) (who : Actor) (key : String) :
    Undisturbed c w (v.readFields who key).2 :=
  h.perform who _ _ fun _ _ hm => .fields hm

theorem read (h : Undisturbed c w v) (who : Actor) {load : Load} (hd : load.cluster ≠ c) :
    Undisturbed c w (v.read who load).1 := by
  have hread := h.readFields who (registryKey load.cluster)
  unfold World.read
  split <;> next hr => rw [hr] at hread; first | exact hread | exact hread.failLoad hd _

/-! ## Beginning and going on -/

theorem «begin» (h : Undisturbed c w v) (hs : Supervised v) (who : Actor) {a : Action}
    (hn : a.names setup c = false) (hshut : a ≠ .shutdown) :
    Undisturbed c w (v.begin setup who a).1 := by
  cases a with
  | register text | unregister text =>
    rw [World.begin, beginChange_fst]
    exact h
  | lookup key | view key => exact h.beginLoad who _ (by simpa [Action.names] using hn)
  | «attach» d l => exact h.attach hs (by simpa [Action.names] using hn) (.user l)
  | detach d l guarded =>
    have hd : d ≠ c := by simpa [Action.names] using hn
    have hdetached := h.detach hs hd (.user l)
    simp only [World.begin, beginDetach]
    split
    · exact h
    · split <;> next hr => rw [hr] at hdetached; exact hdetached
  | awaitSettled d => exact h.beginWatch d .settled
  | awaitStarted d => exact h.beginWatch d .started
  | shutdown => exact absurd rfl hshut
  | send key ms => exact h.sendAll (by simpa [Action.names] using hn) ms 0
  | putField key field value =>
    simp only [World.begin]
    split
    · exact h
    · next hset => exact h.stored (.setField (by simpa [Action.names] using hn) hset)
  | dropField key field =>
    simp only [World.begin]
    split
    · exact h
    · next hdel => exact h.stored (.deleteField (by simpa [Action.names] using hn) hdel)
  | readHash key =>
    simp only [World.begin]
    split <;> exact h
  | disconnect key => exact h.stored (.send (by simpa [Action.names] using hn) _ _)
  | setUnavailable value => exact h.stored ⟨rfl, rfl⟩
  | _ => exact h.quiet rfl rfl rfl rfl rfl rfl

theorem resume (hs : Supervised w) {who : Actor} {stage : Stage} {p : Progress}
    (hn : stage.names setup c = false) (hr : w.resume setup who stage = some (w', p)) :
    Undisturbed c w w' := by
  have gate : ∀ {m : Method} {g : Gate} {hold : Stage} {go : World × Progress},
      w.throughGate m g hold go = some (w', p) → Undisturbed c w go.1 → Undisturbed c w w' := by
    intro m g hold go hgate hgo
    rcases throughGate_cases hgate with heq | rfl
    · cases heq
      exact .refl w
    · exact hgo
  have hw := refl (c := c) w
  cases stage with
  | writing e g => exact gate hr (hw.write who e (by simpa [Stage.names] using hn))
  | announcing e g => exact gate hr (hw.announce who e (by simpa [Stage.names] using hn))
  | reading load g => exact gate hr (hw.read who (by simpa [Stage.names] using hn))
  | replied load fields g =>
    exact gate hr (hw.takeSnapshot hs (by simpa [Stage.names] using hn) fields)
  | queued load =>
    simp only [World.resume] at hr
    split at hr
    · cases hr
      exact hw
    · split at hr
      · cases hr
        exact hw
      · cases hr
    · cases hr
  | starting load seen =>
    simp only [World.resume] at hr
    split at hr
    · split at hr
      · cases hr
      · have heq : (w.awaitStart load).1 = w' := congrArg Prod.fst (Option.some.inj hr)
        exact heq ▸ hw.awaitStart (by simpa [Stage.names] using hn)
    · cases hr
  | watching d goal seen =>
    simp only [World.resume] at hr
    split at hr
    · split at hr
      · cases hr
      · have heq : (w.beginWatch d goal).1 = w' := congrArg Prod.fst (Option.some.inj hr)
        exact heq ▸ hw.beginWatch d goal
    · cases hr
  | joining id =>
    simp only [World.resume] at hr
    split at hr
    · cases hr
      exact hw
    · cases hr
  | draining ids =>
    simp only [World.resume] at hr
    split at hr
    · split at hr
      · have heq : (w.drain _).1 = w' := congrArg Prod.fst (Option.some.inj hr)
        exact heq ▸ hw.drain _
      · cases hr
    · cases hr
      exact hw

/-! ## Steps of tasks -/

section
variable (h : Undisturbed c w v) (hf : w.Foreign c id) (hd : t.cluster ≠ c)
include h hf hd

theorem finishTask (s : Status) : Undisturbed c w (v.finishTask id t s) :=
  ((h.publish hd s).moveTask hf .ended).note _

theorem failTask : Undisturbed c w (v.failTask id t) := (h.count _).finishTask hf hd .failed

omit hf in
theorem closeStream : Undisturbed c w (v.closeStream t) := by
  unfold World.closeStream
  split
  · exact h.stored (.close (fun heq => hd (registryKey_inj.1 heq)) _ _)
  · exact h

theorem dropAttempt : Undisturbed c w (v.dropAttempt setup id t) := by
  rcases dropAttempt_cases setup v id t with ⟨-, heq⟩ | ⟨-, heq⟩ <;> rw [heq]
  · exact (h.updateTask hf _ fun _ => by rfl).failTask hf hd
  · have hdrawn : Undisturbed c w { v with draws := v.draws + 1 } :=
      h.quiet rfl rfl rfl rfl rfl rfl
    exact (hdrawn.updateTask hf _ fun _ => by rfl).publish hd _

theorem endAttempt (f : Fault) : Undisturbed c w (v.endAttempt setup id t f) := by
  have hclosed := h.closeStream hd
  unfold World.endAttempt
  dsimp only
  split
  · exact hclosed.failTask hf hd
  · exact hclosed.dropAttempt hf hd

theorem afterCallback (s : Nat) (pass : Pass) (l : Listener) (fault : Option Fault)
    (rest : List Listener) :
    Undisturbed c w (v.afterCallback setup id t s pass l fault rest) := by
  have hnote := h.note (.returned id l pass.hook fault)
  unfold World.afterCallback
  dsimp only
  split
  · exact hnote.moveTask hf _
  · split
    · exact (hnote.count _).endAttempt hf hd _
    · exact (hnote.count _).moveTask hf _
  · exact hnote.endAttempt hf hd _

theorem call (s : Nat) (pass : Pass) (l : Listener) (rest : List Listener) :
    Undisturbed c w (v.call setup id t s pass l rest) := by
  have hnote := h.note (.called id l pass.hook)
  unfold World.call
  dsimp only
  split
  · refine Undisturbed.moveTask ?_ hf _
    exact hnote.quiet rfl rfl rfl rfl rfl rfl
  · unfold applyEvent
    split
    · exact hnote.afterCallback hf hd _ _ _ _ _
    · exact ((hnote.updateCache hd _).count _).afterCallback hf hd _ _ _ _ _
  · exact hnote.moveTask hf _

theorem finishPass (s : Nat) (pass : Pass) : Undisturbed c w (v.finishPass id t s pass) := by
  cases pass with
  | full => exact (h.publish hd .active).updateTask hf _ fun _ => rfl
  | joined | beforeDelivery | delivery => exact h.moveTask hf _

theorem receive (s : Nat) (payload : String) :
    Undisturbed c w (v.receive setup id t s payload) := by
  unfold World.receive
  split
  · exact h.endAttempt hf hd _
  · dsimp only
    split
    · exact ((h.count _).count _).endAttempt hf hd _
    · exact (((h.count _).takePending hd).note _).moveTask hf _

theorem taskStep (step : TaskStep setup v id t w') (hn : t.position.action? = none)
    (hst : t.position.stage? = none) : Undisturbed c w w' := by
  have hk : registryKey t.cluster ≠ registryKey c := fun heq => hd (registryKey_inj.1 heq)
  have hread := h.readFields (.task id) (registryKey t.cluster)
  have hopen : Undisturbed c w (v.openStream (.task id) (registryKey t.cluster)).2 :=
    h.perform _ _ _ fun _ _ hm => .subscribe hk hm
  cases step with
  | parked hp => exact h.moveTask hf _
  | refused hp ho =>
    rw [ho] at hopen
    exact hopen.dropAttempt hf hd
  | opened hp ho =>
    rw [ho] at hopen
    exact ((hopen.takePending hd).note _).moveTask hf _
  | passed hp => exact h.finishPass hf hd _ _
  | called hp => exact h.call hf hd _ _ _ _
  | unread hp hr =>
    rw [hr] at hread
    exact hread.afterCallback hf hd _ _ _ _ _
  | read hp hr =>
    rw [hr] at hread
    exact hread.moveTask hf _
  | replaced hp => exact (h.updateCache hd _).afterCallback hf hd _ _ _ _ _
  | returned hp => exact h.afterCallback hf hd _ _ _ _ _
  | acted hp =>
    rw [hp] at hn
    cases hn
  | resumed hp =>
    rw [hp] at hst
    cases hst
  | woken hp hnot hv =>
    subst hv
    exact ((h.updateTask hf _ fun _ => by rfl).takePending hd).moveTask hf _
  | received hp hnot hnext => exact ((h.stored (.next hk hnext)).note _).receive hf hd _ _
  | closed hp hnot hnext => exact ((h.stored (.next hk hnext)).note _).endAttempt hf hd _
  | retried hp hdue => exact (h.count _).moveTask hf _

end

/-- A listener has made a call, and the task that called it waits or goes on. -/
theorem settleAction (h : Undisturbed c w v) (hrun : ∀ t : Task, v.tasks[id]? = some t →
    t.position ≠ .ended) (s : Nat) (pass : Pass) (l : Listener) (rest : List Listener)
    (name label : String) (more : List (String × Action)) (fault : Option Fault) (p : Progress) :
    Undisturbed c w (v.settleAction id s pass l rest name label more fault p) := by
  cases p with
  | finished a => exact (h.note _).moveOn fun t ht => by simpa using hrun t ht
  | paused stage => exact h.moveOn fun t ht => by simpa using hrun t ht

theorem settleCall (h : Undisturbed c w v) (call : Nat) (p : Progress) :
    Undisturbed c w (v.settleCall call p) := by
  cases p <;> exact h.quiet rfl rfl rfl rfl rfl rfl

theorem stopTask (hf : w.Foreign c id) (hd : t.cluster ≠ c)
    (hst : t.position.stage?.any (Stage.names setup c) = false) :
    Undisturbed c w (w.stopTask id t) := by
  unfold World.stopTask
  dsimp only
  split
  · next _ _ _ _ _ stage _ _ _ hp =>
    have hstage : stage.names setup c = false := by simpa [hp, Position.stage?] using hst
    exact (((refl w).abandon (.task id) hstage).closeStream hd).finishTask hf hd _
  · exact ((refl w).closeStream hd).finishTask hf hd _

/-- A step of a task counts for its cluster, unless a listener that it calls makes or goes on with
a call. -/
theorem stepTask (hs : Supervised w) (ht : w.tasks[id]? = some t) (he : t.isEnded = false)
    (hc : t.cancelled = false) (hshut : t.position.action? ≠ some .shutdown)
    (hn : t.concerns setup c = false) (step : TaskStep setup w id t w') : Undisturbed c w w' := by
  have hstep := step
  have hrun : ∀ t' : Task, w.tasks[id]? = some t' → t'.position ≠ .ended := by
    intro t' ht' hend
    cases ht.symm.trans ht'
    exact absurd (Task.isEnded_iff.2 hend) (by simp [he])
  have running : ∀ {v : World}, Edits setup w v → ∀ t' : Task, v.tasks[id]? = some t' →
      t'.position ≠ .ended := by
    intro v hedits t' ht'
    obtain ⟨u, hu, -, hp, -⟩ := (Elsewhere.edits hedits).task t ht
    cases hu.symm.trans ht'
    exact hp ▸ hrun t ht
  have hforeign : t.cluster ≠ c → w.Foreign c id := fun hd t' ht' => by
    cases ht.symm.trans ht'
    exact hd
  cases step with
  | parked hp =>
    refine (refl w).moveOn fun t' ht' => ?_
    cases ht.symm.trans ht'
    rw [← Position.clear_eq_ended, hp, Position.clear_eq_ended]
  | @acted s pass l name label a more fault rest v p hp hbegin =>
    have hna : a.names setup c = false := by
      simpa [Task.concerns, hc, hp, Position.action?] using hn
    have ha : a ≠ .shutdown := by
      rintro rfl
      exact hshut (by rw [hp]; rfl)
    have hbegun := ((refl w).note (.doing name label)).begin (hs.rests (.note w _)) (.task id) hna ha
    have hedits : Edits setup w ((w.note (.doing name label)).begin setup (.task id) a).1 :=
      (Edits.aside (.note w rfl)).trans (begin_edits _ (.task id) a)
    rw [hbegin] at hbegun hedits
    exact hbegun.settleAction (running hedits) _ _ _ _ _ _ _ _ _
  | @resumed s pass l name label stage more fault rest v p hp hresume =>
    have hns : stage.names setup c = false := by
      simpa [Task.concerns, hc, hp, Position.action?, Position.stage?] using hn
    exact (resume hs hns hresume).settleAction (running (resume_edits hresume)) _ _ _ _ _ _ _ _ _
  | refused hp | opened hp | passed hp | called hp | unread hp | read hp | replaced hp
  | returned hp | woken hp | received hp | closed hp | retried hp =>
    have hd : t.cluster ≠ c := by
      simpa [Task.concerns, hc, hp, Position.action?, Position.stage?] using hn
    exact (refl w).taskStep (hforeign hd) hd hstep (by rw [hp]; rfl) (by rw [hp]; rfl)

/-- A move leaves what belongs to a cluster as it is, unless it is about the cluster. -/
theorem move {m : Move} (hs : Supervised w) (hm : w.move setup m = some w')
    (hshut : ∀ who, w.begins? m ≠ some (who, .shutdown)) (hn : w.concerns setup c m = false) :
    Undisturbed c w w' := by
  have hw := refl (c := c) w
  cases m with
  | step who =>
    cases who with
    | call id =>
      simp only [World.move, World.step, stepCall] at hm
      split at hm
      · cases hm
      · next stage hstage =>
        obtain ⟨⟨v, p⟩, hr, rfl⟩ := Option.map_eq_some_iff.1 hm
        have hns : stage.names setup c = false := by simpa [concerns, hstage] using hn
        exact (resume hs hns hr).settleCall id p
    | task id =>
      obtain ⟨t, ht, hm⟩ := Option.bind_eq_some_iff.1 hm
      have hnt : t.concerns setup c = false := by simpa [concerns, ht] using hn
      unfold World.stepTask at hm
      split at hm
      · cases hm
      · next he =>
        have he : t.isEnded = false := by simpa using he
        split at hm
        · next hc =>
          cases hm
          simp only [Task.concerns, hc, if_true, Bool.or_eq_false_iff, beq_eq_false_iff_ne] at hnt
          refine stopTask (fun t' ht' => ?_) hnt.1 hnt.2
          cases ht.symm.trans ht'
          exact hnt.1
        · next hc =>
          have hc : t.cancelled = false := by simpa using hc
          refine stepTask hs ht he hc (fun ha => hshut (.task id) ?_) hnt (advanceTask_cases hm)
          simp [begins?, ht, he, hc, ha]
  | ask id a =>
    simp only [World.move] at hm
    split at hm
    · cases hm
    · next hfree =>
      cases hm
      have ha : a ≠ .shutdown := by
        rintro rfl
        exact hshut (.call id) (by simp [begins?, hfree])
      exact ((hw.note _).begin (hs.rests (.note w _)) (.call id) hn ha).settleCall id _
  | drop id =>
    cases hm
    unfold dropCall
    split
    · exact hw
    · next stage hstage =>
      have hns : stage.names setup c = false := by simpa [concerns, hstage] using hn
      exact (hw.abandon (.call id) hns).quiet rfl rfl rfl rfl rfl rfl
  | clear who =>
    cases hm
    cases who with
    | call id => exact hw.quiet rfl rfl rfl rfl rfl rfl
    | task id =>
      cases ht : w.tasks[id]? with
      | none =>
        refine hw.quiet rfl rfl rfl rfl rfl ?_
        exact List.modify_eq_self (by simpa using ht)
      | some t =>
        rw [show w.clear (.task id) = w.moveTask id t.position.clear from updateTask_congr ht rfl]
        refine hw.moveOn fun t' ht' => ?_
        cases ht.symm.trans ht'
        exact Position.clear_eq_ended
  | free _ | elapse _ =>
    cases hm
    exact hw.quiet rfl rfl rfl rfl rfl rfl

end Undisturbed

end World

/-! ## At most one cluster -/

section
variable {setup : Setup} {c d : String}

theorem Action.names_unique {a : Action} (h : a.names setup c = true)
    (h' : a.names setup d = true) : c = d := by
  cases a with
  | lookup key | view key =>
    simp only [names, beq_iff_eq] at h h'
    exact Option.some.inj (h.symm.trans h')
  | putField key | dropField key | readHash key | send key | disconnect key | subscribers key =>
    simp only [names, beq_iff_eq] at h h'
    exact registryKey_inj.1 (h.symm.trans h')
  | _ => first
    | cases h
    | simp only [names, beq_iff_eq] at h h'
      exact h.symm.trans h'

theorem Stage.names_unique {stage : Stage} (h : stage.names setup c = true)
    (h' : stage.names setup d = true) : c = d := by
  cases stage with
  | joining | draining => cases h
  | _ =>
    simp only [names, beq_iff_eq] at h h'
    exact h.symm.trans h'

/-- A move is about one cluster at most, unless it stops a task whose listener is in a call. -/
theorem World.concerns_unique {w : World} {m : Move} (h : w.concerns setup c m = true)
    (h' : w.concerns setup d m = true) : c = d ∨ ∃ (id : Nat) (t : Task) (stage : Stage),
      m = .step (.task id) ∧ w.tasks[id]? = some t ∧ t.cancelled = true ∧
        t.position.stage? = some stage := by
  have hcall : ∀ id, (w.calls.get? id).any (Stage.names setup c) = true →
      (w.calls.get? id).any (Stage.names setup d) = true → c = d := by
    intro id h h'
    obtain ⟨stage, hs, h⟩ := (Option.any_eq_true _ _).1 h
    obtain ⟨_, hs', h'⟩ := (Option.any_eq_true _ _).1 h'
    cases hs.symm.trans hs'
    exact Stage.names_unique h h'
  cases m with
  | ask id a => exact .inl (Action.names_unique h h')
  | drop id => exact .inl (hcall id h h')
  | clear _ | free _ | elapse _ => cases h
  | step who =>
    cases who with
    | call id => exact .inl (hcall id h h')
    | task id =>
      obtain ⟨t, ht, h⟩ := (Option.any_eq_true _ _).1 h
      obtain ⟨_, ht', h'⟩ := (Option.any_eq_true _ _).1 h'
      cases ht.symm.trans ht'
      cases hc : t.cancelled with
      | true =>
        cases hst : t.position.stage? with
        | some stage => exact .inr ⟨id, t, stage, rfl, ht, hc, hst⟩
        | none =>
          simp only [Task.concerns, hc, hst, if_true, Option.any_none, Bool.or_false,
            beq_iff_eq] at h h'
          exact .inl (h.symm.trans h')
      | false =>
        refine .inl ?_
        simp only [Task.concerns, hc, Bool.false_eq_true, if_false] at h h'
        cases ha : t.position.action? with
        | some a =>
          rw [ha] at h h'
          exact Action.names_unique h h'
        | none =>
          rw [ha] at h h'
          cases hst : t.position.stage? with
          | some stage =>
            rw [hst] at h h'
            exact Stage.names_unique h h'
          | none =>
            rw [hst] at h h'
            exact (beq_iff_eq.1 h).symm.trans (beq_iff_eq.1 h')

end

namespace Fleet

variable {setups : Nat → Setup} {f g : Fleet} {i : Nat} {m : Move} {w : World}

/-- In a reachable fleet a move of a client, other than a shutdown, leaves all that belongs to a
cluster as it is for every client, unless the move is about that cluster. It is about one cluster,
if about any; only a cancelled task whose listener is in a call gives the call up, which is about
the cluster that the call names, and stops. -/
theorem clusters_apart (hf : Reachable setups f) (hw : f.world? i = some w)
    (hm : f.move setups i m = some g) (hshut : ∀ who, w.begins? m ≠ some (who, .shutdown)) :
    (∀ c, w.concerns (setups i) c m = false → ∀ j v, f.world? j = some v →
      ∃ v', g.world? j = some v' ∧ v.Undisturbed c v') ∧
    ∀ a b, w.concerns (setups i) a m = true → w.concerns (setups i) b m = true → a = b ∨
      ∃ (id : Nat) (t : Task) (stage : Stage), m = .step (.task id) ∧ w.tasks[id]? = some t ∧
        t.cancelled = true ∧ t.position.stage? = some stage := by
  obtain ⟨w₀, w', hw₀, hmove, -, hi, hothers⟩ := move_cases hm
  cases hw.symm.trans hw₀
  refine ⟨fun c hc j v hv => ?_, fun a b => World.concerns_unique⟩
  have hmine : w.Undisturbed c w' := .move (World.Supervised.of_reachable hf hw) hmove hshut hc
  by_cases hj : i = j
  · subst hj
    cases hw.symm.trans hv
    exact ⟨w', hi, hmine⟩
  · refine ⟨{ v with store := w'.store }, by rw [hothers j hj, hv]; rfl,
      (World.Undisturbed.refl v).stored ?_⟩
    have hstore : v.store = w.store := (store_of_world? hv).trans (store_of_world? hw).symm
    exact hstore ▸ ⟨hmine.hash, hmine.channel⟩

/-- Two clusters are subscribed, and the task of one reads a message. -/
theorem clusters_apart_message : ∃ f w g,
    Reachable (fun _ => .plain "me@here") f ∧ f.world? 0 = some w ∧
    f.move (fun _ => .plain "me@here") 0 (.step (.task 0)) = some g ∧
    w.concerns (.plain "me@here") "a" (.step (.task 0)) = true ∧
    (w.slots.get? "b").map (·.status) = some .active ∧
    ∃ w', g.world? 0 = some w' ∧ w.Undisturbed "b" w' ∧
      w'.trace.head? = some (.dispatched 0 "10.0.0.1:8091-REGISTER" [.user "x"]) := by
  obtain ⟨f, w, hf, hw, hp⟩ := exists_of_run (fun _ => .plain "me@here") .usual 1 0
    ([(0, Move.ask 0 (.attach "a" "x")), (0, Move.ask 1 (.attach "b" "y"))] ++
      List.replicate 4 (0, Move.step (.task 0)) ++ List.replicate 4 (0, Move.step (.task 1)) ++
      [(0, Move.ask 2 (.send "registry.redis.a" ["10.0.0.1:8091-REGISTER"]))])
    (fun w => w.concerns (.plain "me@here") "a" (.step (.task 0)) &&
      !w.concerns (.plain "me@here") "b" (.step (.task 0)) &&
      w.begins? (.step (.task 0)) == none &&
      (w.slots.get? "b").map (·.status) == some .active &&
      (w.move (.plain "me@here") (.step (.task 0))).any fun w' =>
        w'.trace.head? == some (.dispatched 0 "10.0.0.1:8091-REGISTER" [.user "x"]))
    rfl (by decide +kernel)
  simp only [Bool.and_eq_true, Bool.not_eq_true', beq_iff_eq] at hp
  obtain ⟨⟨⟨⟨ha, hb⟩, hnone⟩, hactive⟩, hmoves⟩ := hp
  obtain ⟨w', hm, hhead⟩ := (Option.any_eq_true _ _).1 hmoves
  have hmove : f.move (fun _ => .plain "me@here") 0 (.step (.task 0)) =
      some ⟨w'.store, f.worlds.set 0 w'⟩ := by
    simp [Fleet.move, hw, hm]
  obtain ⟨w'', hw'', hapart⟩ := (clusters_apart hf hw hmove (by simp [hnone])).1 "b" hb 0 w hw
  obtain ⟨v, v', hv, hm', -, hi, -⟩ := move_cases hmove
  cases hw.symm.trans hv
  cases hm.symm.trans hm'
  cases hi.symm.trans hw''
  exact ⟨f, w, _, hf, hw, hmove, ha, hactive, w', hi, hapart, beq_iff_eq.1 hhead⟩

end Fleet

end Muster
