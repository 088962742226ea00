import Muster.Proofs.CallEffects
import Muster.Proofs.Supervision

/-!
# Caches and their updaters

A cache that was refilled is followed up by an updater. Whoever refills it attaches a new one, so
the newest task of the cluster has the updater in its queue, or it has not opened a stream yet; or
the client is shut down, and then nobody declares the cache loaded any more (`Heeds`). Updaters never
leave, a cache is declared loaded only when it has one, and whoever loads a cluster owns its cell
(`Kept`).
-/
namespace Muster

namespace Membership

variable {α : Type}

theorem nodup_eraseDups (as : List Address) : as.eraseDups.Nodup := by
  induction h : as.length using Nat.strongRecOn generalizing as with
  | ind n ih =>
    cases as with
    | nil => simp
    | cons a rest =>
      rw [List.eraseDups_cons, List.nodup_cons]
      refine ⟨by simp, ih _ ?_ _ rfl⟩
      have hle := List.length_filter_le (fun b => !b == a) rest
      simp only [List.length_cons] at h
      omega

theorem nodup_replace (m : Membership α) (as : List Address) : (m.replace as).members.Nodup :=
  nodup_eraseDups as

theorem nodup_apply {m : Membership α} (h : m.members.Nodup) (e : Event) :
    (m.apply e).members.Nodup := by
  unfold apply
  cases e.kind with
  | register =>
    simp only [insertMember]
    split
    · exact h
    · next hmem =>
      rw [List.nodup_append]
      refine ⟨h, by simp, fun a ha b hb => ?_⟩
      rintro rfl
      exact hmem (List.mem_singleton.1 hb ▸ ha)
  | unregister => exact h.erase _

/-- An event that was just applied. -/
theorem mem_apply {m : Membership α} (h : m.members.Nodup) (e : Event) :
    e.address ∈ (m.apply e).members ↔ e.kind = .register := by
  unfold apply
  cases e.kind with
  | register =>
    simp only [insertMember, iff_true]
    split
    · assumption
    · simp
  | unregister => simp [h.not_mem_erase]

/-- An event about another address. -/
theorem mem_apply_of_ne {m : Membership α} {e : Event} {a : Address}
    (h : e.address ≠ a) : a ∈ (m.apply e).members ↔ a ∈ m.members := by
  unfold apply
  cases e.kind with
  | register =>
    simp only [insertMember]
    split
    · rfl
    · simp [Ne.symm h]
  | unregister => exact List.mem_erase_of_ne (Ne.symm h)

end Membership

namespace World

variable {setup : Setup} {w v : World} {c : String} {id id' : Nat}

/-- An updater is registered in the cluster. -/
def Served (w : World) (c : String) : Prop := ∃ u ∈ w.listeners.of c, u.isUpdater = true

/-- An updater waits in the queue of the cluster. -/
def Owed (w : World) (c : String) : Prop := ∃ u ∈ w.listeners.pending c, u.isUpdater = true

/-- The task has no stream. -/
def Streamless (w : World) (id : Nat) : Prop :=
  ∃ t, w.tasks[id]? = some t ∧ t.position.stream? = none

theorem spawn_streamless (w : World) (c : String) :
    (w.spawn setup c).Streamless w.tasks.length := ⟨_, List.getElem?_concat_length, rfl⟩

/-! ## The newest task -/

/-- The task is the newest one of the cluster. -/
def Leads (w : World) (c : String) (id : Nat) : Prop :=
  ∃ t s, w.tasks[id]? = some t ∧ t.cluster = c ∧ w.slots.get? c = some s ∧
    s.generation = t.generation

theorem Supervised.leads_unique (h : Supervised w) (hl : w.Leads c id) (hl' : w.Leads c id') :
    id = id' := by
  obtain ⟨t, s, ht, hc, hs, hg⟩ := hl
  obtain ⟨t', s', ht', hc', hs', hg'⟩ := hl'
  cases hs.symm.trans hs'
  exact h.one (charge?_of_task ht) (charge?_of_task ht') (hc.trans hc'.symm) (hg.symm.trans hg')

theorem Supervised.leads_of_handle (h : Supervised w) (hh : w.handles.get? c = some id) :
    w.Leads c id := by
  obtain ⟨ch, s, hch, hc, -, hs, hg, -⟩ := h.handle hh
  obtain ⟨t, ht, rfl⟩ := Option.map_eq_some_iff.1 hch
  exact ⟨t, s, ht, hc, hs, hg⟩

theorem Leads.same (h : v.Leads c id) (ht : v.tasks = w.tasks) (hs : v.slots = w.slots) :
    w.Leads c id := by
  rwa [Leads, ht, hs] at h

theorem Leads.of_updateTask {j : Nat} {f : Task → Task} (h : (w.updateTask j f).Leads c id)
    (hc : ∀ u, (f u).cluster = u.cluster) (hg : ∀ u, (f u).generation = u.generation) :
    w.Leads c id := by
  obtain ⟨t, s, ht, hcl, hs, hgen⟩ := h
  simp only [updateTask, List.getElem?_modify] at ht
  obtain ⟨u, hu, rfl⟩ := Option.map_eq_some_iff.1 ht
  split at hcl
  · next hj =>
    rw [if_pos hj, hg] at hgen
    exact ⟨u, s, hu, hc u ▸ hcl, hs, hgen⟩
  · next hj =>
    rw [if_neg hj] at hgen
    exact ⟨u, s, hu, hcl, hs, hgen⟩

theorem Leads.of_publish {t : Task} {s : Status} {j : Nat} (h : (w.publish j t s).Leads c id) :
    w.Leads c id := by
  obtain ⟨u, slot, hu, hc, hs, hg⟩ := h
  rw [(publish_others w j t s).1] at hu
  rw [get?_publish] at hs
  obtain ⟨old, hold, rfl⟩ := Option.map_eq_some_iff.1 hs
  refine ⟨u, old, hu, hc, hold, ?_⟩
  rw [← hg]
  split
  · unfold Slot.publish
    split <;> rfl
  · rfl

/-- A task that was just started is the newest of its cluster, and no other cluster has a new one. -/
theorem Leads.of_spawn (h : ∀ {id ch}, w.charge? id = some ch →
      ∃ s, w.slots.get? ch.cluster = some s ∧ ch.generation ≤ s.generation) {c' : String}
    (hl : (w.spawn setup c).Leads c' id) :
    if c = c' then id = w.tasks.length else w.Leads c' id := by
  obtain ⟨t, s, ht, hc, hs, hg⟩ := hl
  simp only [spawn, note, count, Table.get?_insert] at ht hs
  have hold : id ≠ w.tasks.length → w.tasks[id]? = some t := by
    intro hne
    rw [List.getElem?_append] at ht
    split at ht
    · exact ht
    · next hge =>
      rw [List.getElem?_singleton] at ht
      split at ht
      · omega
      · cases ht
  by_cases hcc : c = c'
  · subst hcc
    rw [if_pos rfl] at hs ⊢
    refine Decidable.byContradiction fun hne => ?_
    obtain ⟨s', hs', hle⟩ := h (charge?_of_task (hold hne))
    have hs' : w.slots.get? t.cluster = some s' := hs'
    have hle : t.generation ≤ s'.generation := hle
    rw [hc] at hs'
    cases hs
    simp [hs', Slot.begin] at hg
    omega
  · rw [if_neg hcc] at hs ⊢
    refine ⟨t, s, hold fun hid => hcc ?_, hc, hs, hg⟩
    subst hid
    rw [List.getElem?_concat_length] at ht
    cases ht
    exact hc

/-! ## Listeners -/

/-- What calls leave to the one that keeps a cache: updaters stay, and a task that is still the
newest of its cluster finds those that came in its queue. -/
structure Gathers (w v : World) : Prop where
  served : ∀ {c}, w.Served c → v.Served c
  turn : ∀ {c id}, v.Leads c id → v.Served c → v.Streamless id ∨ v.Owed c ∨
    w.Leads c id ∧ w.Served c ∧ (w.Owed c → v.Owed c)

namespace Gathers

theorem same (hl : v.listeners = w.listeners) (hlead : ∀ {c id}, v.Leads c id → w.Leads c id) :
    Gathers w v where
  served h := by rwa [Served, hl]
  turn h hs := by
    refine .inr (.inr ⟨hlead h, ?_, fun ho => ?_⟩)
    · rwa [Served, hl] at hs
    · rwa [Owed, hl]

theorem refl (w : World) : Gathers w w := same rfl fun h => h

theorem aside (h : Aside w v) : Gathers w v := same h.listeners fun hl => hl.same h.tasks h.slots

theorem trans {a b c : World} (h : Gathers a b) (h' : Gathers b c)
    (he : ∀ id, Elsewhere id b c) : Gathers a c where
  served hs := h'.served (h.served hs)
  turn {k id} hk hs := by
    rcases h'.turn hk hs with hs | ho | ⟨hb, hserved, howed⟩
    · exact .inl hs
    · exact .inr (.inl ho)
    · rcases h.turn hb hserved with ⟨t, ht, hstream⟩ | ho | ⟨ha, hserved', howed'⟩
      · obtain ⟨t', ht', -, hp, -⟩ := (he id).task t ht
        exact .inl ⟨t', ht', hp ▸ hstream⟩
      · exact .inr (.inl (howed ho))
      · exact .inr (.inr ⟨ha, hserved', fun ho => howed (howed' ho)⟩)

theorem attach (hsup : Supervised w) (c : String) (l : Listener) :
    Gathers w (w.attach setup c l).2 := by
  unfold World.attach
  split
  · exact refl w
  · split
    · constructor
      · rintro c' ⟨u, hu, hup⟩
        refine ⟨u, ?_, hup⟩
        by_cases hc : c = c'
        · subst hc
          simp [updateTask, note, hu]
        · simpa [updateTask, note, hc] using hu
      · intro c' id hlead hserved
        have hlead : w.Leads c' id := hlead.of_updateTask (fun _ => rfl) fun _ => rfl
        obtain ⟨u, hu, hup⟩ := hserved
        by_cases hc : c = c'
        · subst hc
          by_cases hl : l.isUpdater = true
          · exact .inr (.inl ⟨l, by simp [updateTask, note], hl⟩)
          · have hne : u ≠ l := fun h => hl (h ▸ hup)
            refine .inr (.inr ⟨hlead, ⟨u, by simpa [updateTask, note, hne] using hu, hup⟩, ?_⟩)
            rintro ⟨u, hu, hup⟩
            exact ⟨u, by simp [updateTask, note, hu], hup⟩
        · refine .inr (.inr ⟨hlead, ⟨u, by simpa [updateTask, note, hc] using hu, hup⟩, ?_⟩)
          rintro ⟨u, hu, hup⟩
          exact ⟨u, by simpa [updateTask, note, hc] using hu, hup⟩
    · constructor
      · rintro c' ⟨u, hu, hup⟩
        refine ⟨u, ?_, hup⟩
        by_cases hc : c = c'
        · subst hc
          simp [spawn, count, note, hu]
        · simpa [spawn, count, note, hc] using hu
      · intro c' id hlead hserved
        have hlead := hlead.of_spawn hsup.slot
        by_cases hc : c = c'
        · -- The task of the cluster is a new one.
          subst hc
          rw [if_pos rfl] at hlead
          subst hlead
          exact .inl (spawn_streamless _ c)
        · rw [if_neg hc] at hlead
          obtain ⟨u, hu, hup⟩ := hserved
          refine .inr (.inr ⟨hlead, ⟨u, by simpa [spawn, count, note, hc] using hu, hup⟩, ?_⟩)
          rintro ⟨u, hu, hup⟩
          exact ⟨u, by simpa [spawn, count, note] using hu, hup⟩

/-- A listener of a user leaves. -/
theorem removed {l : Listener} (hl : l ∈ w.listeners.of c) (hup : l.isUpdater = false)
    (hv : v.listeners = (w.listeners.remove c l).2)
    (hlead : ∀ {c id}, v.Leads c id → w.Leads c id) : Gathers w v := by
  have hne : ∀ {u : Listener}, u.isUpdater = true → u ≠ l := fun hu h => by
    rw [h, hup] at hu
    cases hu
  have hserved : ∀ c', v.Served c' ↔ w.Served c' := by
    intro c'
    simp only [Served, hv, Listeners.of_remove hl]
    by_cases hc : c = c'
    · subst hc
      constructor
      · rintro ⟨u, hu, hupd⟩
        rw [if_pos rfl] at hu
        exact ⟨u, List.mem_of_mem_erase hu, hupd⟩
      · rintro ⟨u, hu, hupd⟩
        rw [if_pos rfl]
        exact ⟨u, (List.mem_erase_of_ne (hne hupd)).2 hu, hupd⟩
    · simp [hc]
  refine ⟨fun hs => (hserved _).2 hs, fun {c' id} hid hs => ?_⟩
  refine .inr (.inr ⟨hlead hid, (hserved c').1 hs, ?_⟩)
  rintro ⟨u, hu, hupd⟩
  refine ⟨u, ?_, hupd⟩
  rw [hv, Listeners.pending_remove hl]
  by_cases hc : c = c'
  · -- The updater that is served from the list keeps the queue alive.
    subst hc
    have hleft : (w.listeners.of c).erase l ≠ [] := by
      obtain ⟨u', hu', -⟩ := hs
      rw [hv, Listeners.of_remove hl, if_pos rfl] at hu'
      exact List.ne_nil_of_mem hu'
    simp [hleft, hu, hne hupd]
  · simpa [hc] using hu

theorem detach (w : World) (c name : String) :
    Gathers w (w.detach c (.user name)).2.2 := by
  unfold World.detach
  by_cases hl : .user name ∈ w.listeners.of c
  · have hgather := fun v => @removed w v c (.user name) hl rfl
    generalize w.listeners.remove c (.user name) = r at hgather
    obtain ⟨left, listeners⟩ := r
    cases left with
    | none => exact refl w
    | some n =>
      cases n with
      | zero =>
        dsimp only
        cases w.handles.get? c with
        | none => exact hgather _ rfl fun h => h.same rfl rfl
        | some id =>
          refine hgather _ rfl fun h => ?_
          have hcancel : Leads ({ w with listeners, handles := w.handles.erase c }.note
              (.detached c (.user name))) _ _ := Leads.of_updateTask h (fun _ => rfl) fun _ => rfl
          exact hcancel.same rfl rfl
      | succ n => exact hgather _ rfl fun h => h.same rfl rfl
  · rw [Listeners.remove_of_not_mem hl]
    exact refl w

theorem close (w : World) : Gathers w w.close.2 := by
  refine same rfl fun {c id} h => ?_
  obtain ⟨t, s, ht, hc, hs, hg⟩ := h
  simp only [World.close, cancelAll, List.getElem?_map] at ht
  obtain ⟨u, hu, rfl⟩ := Option.map_eq_some_iff.1 ht
  exact ⟨u, s, hu, hc, hs, hg⟩

theorem edits (hsup : Supervised w) (e : Edits setup w v) : Gathers w v := by
  induction e with
  | aside h => exact aside h
  | attach w c l => exact attach hsup c l
  | detach w c name => exact detach w c name
  | close w => exact close w
  | trans h h' ih ih' => exact (ih hsup).trans (ih' (hsup.edits h)) fun id => .edits h'

end Gathers

/-! ## Caches -/

/-- A client was shut down before the cluster was loaded, and no load can succeed any more. -/
structure Hopeless (w : World) (c : String) : Prop where
  closed : w.closed = true
  cell : w.cell c ≠ .loaded
  start : ∀ who, w.intent? who ≠ some (.start c)

/-- No cache changes behind the back of its updaters, unless nobody declares it loaded any more. -/
structure Heeds (w v : World) : Prop extends Gathers w v where
  members : ∀ c, (v.caches.entry c).members = (w.caches.entry c).members ∨ w.Hopeless c ∨
    ∀ id, v.Leads c id → v.Streamless id ∨ v.Owed c
  nodup : ∀ c, (w.caches.entry c).members.Nodup → (v.caches.entry c).members.Nodup
  loaded : ∀ c, v.cell c = .loaded → w.cell c = .loaded ∨ v.Served c

/-- A cache that is loaded, or on the way to be declared so, has an updater; whoever loads a cluster
owns its cell; addresses that were written or are going to be are plain. -/
structure Kept (w : World) : Prop where
  loaded : ∀ c, w.cell c = .loaded → w.Served c
  start : ∀ who c, w.intent? who = some (.start c) → w.Served c
  owner : ∀ who x c, w.intent? who = some x → x.load? = some c → (w.cell c).owner? = some who
  nodup : ∀ c, (w.caches.entry c).members.Nodup
  plain : ∀ who e, w.intent? who = some (.write e) ∨ w.intent? who = some (.announce e) →
    e.address.isPlain = true

theorem stage?_congr (ht : v.tasks = w.tasks) (hc : v.calls = w.calls) (who : Actor) :
    v.stage? who = w.stage? who := by
  cases who <;> simp only [stage?, ht, hc]

theorem intent?_congr (ht : v.tasks = w.tasks) (hc : v.calls = w.calls) (who : Actor) :
    v.intent? who = w.intent? who := by
  cases who <;> simp only [intent?, ht, hc]

theorem Kept.same (h : Kept w) (hl : v.listeners = w.listeners) (hcaches : v.caches = w.caches)
    (hi : ∀ who, v.intent? who = w.intent? who) : Kept v where
  loaded c hc := by
    rw [Served, hl]
    exact h.loaded c (by rwa [cell, hcaches] at hc)
  start who c hx := by
    rw [Served, hl]
    exact h.start who c (hi who ▸ hx)
  owner who x c hx hl := by
    rw [cell, hcaches]
    exact h.owner who x c (hi who ▸ hx) hl
  nodup c := by
    rw [hcaches]
    exact h.nodup c
  plain who e hx := h.plain who e (hi who ▸ hx)

/-- Nobody else has a cluster to load that one is loading. -/
theorem Kept.alone (h : Kept w) {who who' : Actor} {x x' : Intent} (hx : w.intent? who = some x)
    (hl : x.load? = some c) (hx' : w.intent? who' = some x') (hl' : x'.load? = some c) :
    who = who' :=
  Option.some.inj ((h.owner who x c hx hl).symm.trans (h.owner who' x' c hx' hl'))

theorem Light.heeds (hsup : Supervised w) (h : Light setup w v) : Heeds w v where
  toGathers := .edits hsup h.edits
  members c := .inl (h.members c)
  nodup c hc := by rwa [h.members c]
  loaded c hc := .inl (h.loaded c hc)

/-! ## Loads -/

/-- The load is done, or it waits for the first attempt. -/
theorem awaitStart_cases (w : World) (load : Load) : w.awaitStart load = w.finishLoad load ∨
    ∃ seen, w.awaitStart load = (w, .paused (.starting load seen)) := by
  unfold awaitStart
  split
  · split
    · exact .inl rfl
    · exact .inr ⟨_, rfl⟩
  · exact .inl rfl

theorem awaitStart_intent? {x : Intent} {load : Load}
    (h : (w.awaitStart load).2.intent? = some x) :
    x = .start load.cluster ∧ (w.awaitStart load).1 = w := by
  rcases awaitStart_cases w load with heq | ⟨seen, heq⟩ <;> rw [heq] at h ⊢
  · cases h
  · exact ⟨(Option.some.inj h).symm, rfl⟩

theorem awaitStart_cell {load : Load} (hc : load.cluster ≠ c) :
    (w.awaitStart load).1.cell c = w.cell c := by
  rcases awaitStart_cases w load with heq | ⟨seen, heq⟩ <;> rw [heq]
  exact (cell_updateCell w _ _ c).trans (if_neg hc)

/-- A load that has an updater may be declared done. -/
theorem awaitStart_heeds {load : Load} (h : w.Served load.cluster) :
    Heeds w (w.awaitStart load).1 := by
  have hgather : Gathers w (w.awaitStart load).1 := .aside (awaitStart_aside w load)
  rcases awaitStart_cases w load with heq | ⟨seen, heq⟩
  · rw [heq] at hgather ⊢
    refine ⟨hgather, fun c => .inl (members_updateCell w _ _ c), fun c hc => ?_, fun c hc => ?_⟩
    · rw [finishLoad, members_updateCell]
      exact hc
    · have hcell : (w.finishLoad load).1.cell c = if load.cluster = c then .loaded else w.cell c :=
        cell_updateCell w _ _ c
      rw [hcell] at hc
      split at hc
      · next hl => exact .inr (hgather.served (hl ▸ h))
      · exact .inl hc
  · rw [heq]
    exact ⟨.refl w, fun _ => .inl rfl, fun _ hc => hc, fun _ hc => .inl hc⟩

theorem attach_of_ok {l : Listener} (hl : l.isUpdater = true) (hsup : Supervised w)
    (h : w.attach setup c l = (.ok (), v)) :
    v.Served c ∧ ∀ id, v.Leads c id → v.Streamless id ∨ v.Owed c := by
  unfold World.attach at h
  split at h
  · cases h
  · split at h
    · cases h
      exact ⟨⟨l, by simp [updateTask, note], hl⟩,
        fun _ _ => .inr ⟨l, by simp [updateTask, note], hl⟩⟩
    · cases h
      refine ⟨⟨l, by simp [spawn, count, note], hl⟩, fun id hid => .inl ?_⟩
      have hid := hid.of_spawn hsup.slot
      rw [if_pos rfl] at hid
      subst hid
      exact spawn_streamless _ c

theorem attach_of_error {l : Listener} {f : Fault} (h : w.attach setup c l = (.error f, v)) :
    w.closed = true ∧ v = w := by
  unfold World.attach at h
  split at h
  · next hc =>
    cases h
    exact ⟨hc, rfl⟩
  · split at h <;> cases h

/-- The cache is filled, and the client is shut down, or a new updater follows. -/
theorem takeSnapshot_cases (setup : Setup) (hsup : Supervised w) (load : Load)
    (fields : List (String × String)) :
    ∃ v : World, Edits setup w v ∧ v.store = w.store ∧ v.calls = w.calls ∧
      v.caches = w.caches.update load.cluster (fun m => m.replace (addressesOf fields)) ∧
      v.counters.events = w.counters.events ∧
      ((∃ f, w.closed = true ∧ Silent w v ∧
          w.takeSnapshot setup load fields = v.failLoad load f) ∨
        w.closed = false ∧ v.Served load.cluster ∧
          (∀ id, v.Leads load.cluster id → v.Streamless id ∨ v.Owed load.cluster) ∧
          (∃ l joined, l.isUpdater = true ∧ v.trace.filter Mark.tells =
            .attached load.cluster l joined :: w.trace.filter Mark.tells) ∧
          w.takeSnapshot setup load fields = v.awaitStart load) := by
  unfold takeSnapshot
  dsimp only
  generalize hu : ({ (w.updateCache load.cluster fun m => m.replace (addressesOf fields)) with
    updaters := (w.updateCache load.cluster fun m => m.replace (addressesOf fields)).updaters + 1 }
      : World) = u
  generalize hl : Listener.updater load.cluster
    (w.updateCache load.cluster fun m => m.replace (addressesOf fields)).updaters = l
  have hupdater : l.isUpdater = true := hl ▸ rfl
  have hbefore : Aside w u := hu ▸ .quiet rfl rfl rfl rfl rfl rfl rfl
  have hsup' : Supervised u := hsup.rests (.aside hbefore)
  have hedits : Edits setup w (u.attach setup load.cluster l).2 :=
    (Edits.aside hbefore).trans (.attach u load.cluster l)
  have hstore : (u.attach setup load.cluster l).2.store = w.store := by
    rw [attach_store, ← hu]; rfl
  have hrest : (u.attach setup load.cluster l).2.calls = w.calls ∧
      (u.attach setup load.cluster l).2.caches =
        w.caches.update load.cluster (fun m => m.replace (addressesOf fields)) ∧
      (u.attach setup load.cluster l).2.counters.events = w.counters.events := by
    rw [← hu]
    unfold World.attach
    split
    · exact ⟨rfl, rfl, rfl⟩
    · split <;> exact ⟨rfl, rfl, rfl⟩
  have hclosed : u.closed = w.closed := hu ▸ rfl
  have hmark : (∃ f v, u.attach setup load.cluster l = (.error f, v)) ∨ w.closed = false ∧
      ∃ joined, (u.attach setup load.cluster l).2.trace.filter Mark.tells =
        .attached load.cluster l joined :: w.trace.filter Mark.tells := by
    have htrace : u.trace = w.trace := hu ▸ rfl
    unfold World.attach
    split
    · exact .inl ⟨_, _, rfl⟩
    · next hopen =>
      have hopen : w.closed = false := by simpa [hclosed] using hopen
      split
      · exact .inr ⟨hopen, true, by simp [updateTask, note, Mark.tells, hupdater, htrace]⟩
      · exact .inr ⟨hopen, false, by simp [spawn, count, note, Mark.tells, hupdater, htrace]⟩
  refine ⟨(u.attach setup load.cluster l).2, hedits, hstore, hrest.1, hrest.2.1, hrest.2.2, ?_⟩
  split
  · next f v h =>
    obtain ⟨hshut, rfl⟩ := attach_of_error h
    rw [h]
    exact .inl ⟨f, hclosed ▸ hshut, .same (hu ▸ rfl), rfl⟩
  · next v h =>
    obtain ⟨hserved, hturn⟩ := attach_of_ok hupdater hsup' h
    rw [h] at hmark ⊢
    rcases hmark with ⟨f, v', hf⟩ | ⟨hopen, joined, hj⟩
    · cases hf
    · exact .inr ⟨hopen, hserved, hturn, ⟨l, joined, hupdater, hj⟩, rfl⟩

theorem cell_replace {load : Load} {as : List Address}
    (h : v.caches = w.caches.update load.cluster fun m => m.replace as) (c : String) :
    v.cell c = w.cell c := by
  rw [cell, h, Caches.entry_update]
  split
  · next hc => exact hc ▸ rfl
  · rfl

theorem takeSnapshot_intent? (hsup : Supervised w) {load : Load} {fields : List (String × String)}
    {x : Intent} (h : (w.takeSnapshot setup load fields).2.intent? = some x) :
    x = .start load.cluster ∧ ∀ c, (w.takeSnapshot setup load fields).1.cell c = w.cell c := by
  obtain ⟨v, -, -, -, hcaches, -, ⟨f, -, -, heq⟩ | ⟨-, -, -, -, heq⟩⟩ :=
    takeSnapshot_cases setup hsup load fields
  · rw [heq] at h
    cases h
  · rw [heq] at h ⊢
    obtain ⟨hx, hv⟩ := awaitStart_intent? h
    exact ⟨hx, fun c => (congrArg (·.cell c) hv).trans (cell_replace hcaches c)⟩

theorem takeSnapshot_cell (hsup : Supervised w) {load : Load} {fields : List (String × String)}
    (hc : load.cluster ≠ c) : (w.takeSnapshot setup load fields).1.cell c = w.cell c := by
  obtain ⟨v, -, -, -, hcaches, -, ⟨f, -, -, heq⟩ | ⟨-, -, -, -, heq⟩⟩ :=
    takeSnapshot_cases setup hsup load fields
  · rw [heq]
    exact ((cell_updateCell v _ _ c).trans (if_neg hc)).trans (cell_replace hcaches c)
  · rw [heq, awaitStart_cell hc]
    exact cell_replace hcaches c

/-- Whoever refills a cache attaches a new updater, or gives the load up in a shutdown. -/
theorem takeSnapshot_heeds (hsup : Supervised w) {load : Load} (fields : List (String × String))
    (hhope : w.closed = true → w.Hopeless load.cluster) :
    Heeds w (w.takeSnapshot setup load fields).1 ∧
    ∀ c, (w.takeSnapshot setup load fields).2.intent? = some (.start c) →
      (w.takeSnapshot setup load fields).1.Served c := by
  obtain ⟨v, hedits, -, -, hcaches, -, hcase⟩ := takeSnapshot_cases setup hsup load fields
  have hgather : Gathers w v := .edits hsup hedits
  -- The caches of the others stay, and so do all cells.
  have hother : ∀ c, load.cluster ≠ c → (v.caches.entry c).members = (w.caches.entry c).members :=
    fun c hc => by rw [hcaches, Caches.entry_update, if_neg hc]
  have hnodup : ∀ c, (w.caches.entry c).members.Nodup → (v.caches.entry c).members.Nodup := by
    intro c hc
    rw [hcaches, Caches.entry_update]
    split
    · exact Membership.nodup_replace _ _
    · exact hc
  have hcells : ∀ c, v.cell c = w.cell c := cell_replace hcaches
  rcases hcase with ⟨f, hclosed, -, heq⟩ | ⟨-, hserved, hturn, -, heq⟩
  · rw [heq]
    have hfail : Light setup v (v.failLoad load f).1 := .failLoad v load f
    refine ⟨⟨hgather.trans (.aside (failLoad_aside v load f)) fun id => .edits hfail.edits,
      fun c => ?_, fun c hc => ?_, fun c hc => ?_⟩, fun c hc => by cases hc⟩
    · by_cases hc : load.cluster = c
      · exact .inr (.inl (hc ▸ hhope hclosed))
      · exact .inl ((hfail.members c).trans (hother c hc))
    · rw [hfail.members]
      exact hnodup c hc
    · rw [← hcells]
      exact .inl (hfail.loaded c hc)
  · rw [heq]
    have hstart := awaitStart_heeds hserved
    have hstill : ∀ id, Elsewhere id v (v.awaitStart load).1 :=
      fun id => .aside (awaitStart_aside v load)
    refine ⟨⟨hgather.trans hstart.toGathers hstill, fun c => ?_,
      fun c hc => hstart.nodup c (hnodup c hc), fun c hc => ?_⟩, fun c hc => ?_⟩
    · have haside := awaitStart_aside v load
      have hmembers : ((v.awaitStart load).1.caches.entry c).members =
          (v.caches.entry c).members := by
        rcases awaitStart_cases v load with heq | ⟨seen, heq⟩ <;> rw [heq]
        exact members_updateCell v _ _ c
      by_cases hc : load.cluster = c
      · subst hc
        refine .inr (.inr fun id hid => ?_)
        rw [Streamless, Owed, haside.tasks, haside.listeners]
        exact hturn id (hid.same haside.tasks haside.slots)
      · exact .inl (hmembers.trans (hother c hc))
    · exact (hstart.loaded c hc).imp_left fun h => hcells c ▸ h
    · cases (awaitStart_intent? hc).1
      exact hstart.served hserved

section
variable {loose : Prop} {who : Actor} {after : Option Intent}

theorem Deed.heeds (d : Deed setup loose who w (w.intent? who) v after) (hsup : Supervised w)
    (hk : Kept w) : Heeds w v ∧ ∀ c, after = some (.start c) → v.Served c := by
  cases d with
  | light h _ hb _ ha =>
    refine ⟨h.heeds hsup, fun c hc => ?_⟩
    rcases ha _ hc with hc | hx
    · exact absurd hc (hb c)
    · cases hx
  | wrote h => exact ⟨h.heeds hsup, fun c hc => by cases hc⟩
  | announced h => exact ⟨h.heeds hsup, fun c hc => by cases hc⟩
  | @refilled load fields hb =>
    refine takeSnapshot_heeds hsup fields fun hclosed => ⟨hclosed, ?_, fun who' hx => ?_⟩
    · exact Cell.not_loaded_of_owner (hk.owner who _ _ hb rfl)
    · have hwho := hk.alone hb rfl hx rfl
      subst hwho
      rw [hb] at hx
      cases hx
  | started hb =>
    have hserved := hk.start who _ hb
    refine ⟨awaitStart_heeds hserved, fun c hc => ?_⟩
    cases (awaitStart_intent? hc).1
    exact (awaitStart_heeds hserved).served hserved

/-- A cluster without hope stays so, whatever is done. -/
theorem Deed.hopeless (d : Deed setup loose who w (w.intent? who) v after) (hsup : Supervised w)
    {c : String} (h : w.Hopeless c) : v.cell c ≠ .loaded ∧ after ≠ some (.start c) := by
  cases d with
  | light hl _ hb _ ha =>
    refine ⟨fun hc => h.cell (hl.loaded c hc), fun hx => ?_⟩
    rcases ha _ hx with hx | hx
    · exact hb c hx
    · cases hx
  | wrote hl => exact ⟨fun hc => h.cell (hl.loaded c hc), by simp⟩
  | announced hl => exact ⟨fun hc => h.cell (hl.loaded c hc), by simp⟩
  | @refilled load fields hb =>
    obtain ⟨u, -, -, -, hcaches, -, ⟨f, -, -, heq⟩ | ⟨hopen, -⟩⟩ :=
      takeSnapshot_cases setup hsup load fields
    · have hfail : Light setup u (u.failLoad load f).1 := .failLoad u load f
      rw [heq]
      refine ⟨fun hc => h.cell ?_, fun hx => by cases hx⟩
      rw [← cell_replace hcaches]
      exact hfail.loaded c hc
    · rw [h.closed] at hopen
      cases hopen
  | @started load hb =>
    have hne : load.cluster ≠ c := fun hc => h.start who (hc ▸ hb)
    refine ⟨by rw [awaitStart_cell hne]; exact h.cell, fun hx => ?_⟩
    cases (awaitStart_intent? hx).1
    exact hne rfl

/-- Whoever loads a cluster still owns its cell after a deed of somebody. -/
theorem Deed.owner (d : Deed setup loose who w (w.intent? who) v after) (hsup : Supervised w)
    (hk : Kept w) {c : String} :
    (∀ x, after = some x → x.load? = some c → (v.cell c).owner? = some who) ∧
    ∀ who', who ≠ who' → (w.cell c).owner? = some who' → (v.cell c).owner? = some who' := by
  have howner := hk.owner who
  generalize w.intent? who = before at d howner
  -- Another one owns only cells of other clusters than the one that is being loaded.
  have others : ∀ {k : String}, (∃ x, before = some x ∧ x.load? = some k) →
      (k ≠ c → v.cell c = w.cell c) → ∀ who', who ≠ who' → (w.cell c).owner? = some who' →
      (v.cell c).owner? = some who' := by
    rintro k ⟨x, hx, hl⟩ hcell who' hne hw
    have hk : k ≠ c := by
      rintro rfl
      rw [howner x k hx hl] at hw
      exact hne (Option.some.inj hw)
    exact hcell hk ▸ hw
  cases d with
  | light h _ hb hc ha =>
    refine ⟨fun x hx hl => ?_, fun who' hne hw => ?_⟩
    · have kept : ∀ x', before = some x' → x'.load? = some c → (v.cell c).owner? = some who := by
        intro x' hx' hl'
        have hw := howner x' c hx' hl'
        rcases hc c with hc | hc | ⟨-, hnone, -⟩
        · exact hc ▸ hw
        · exact hc ▸ Cell.owner?_enter hw
        · rw [hnone] at hx
          cases hx
      rcases ha x hx with hx' | hres
      · exact kept x hx' hl
      · cases x with
        | read c' =>
          cases hl
          exact hres
        | fill c' =>
          cases hl
          exact kept _ hres rfl
        | write => cases hl
        | announce => cases hl
        | start => cases hres
    · rcases hc c with hc | hc | ⟨hb, -, -⟩
      · exact hc ▸ hw
      · exact hc ▸ Cell.owner?_enter hw
      · have hmine := howner _ _ hb rfl
        rw [hw] at hmine
        exact absurd (Option.some.inj hmine).symm hne
  | wrote _ _ hc =>
    refine ⟨fun x hx hl => ?_, fun _ _ hw => by rw [hc]; exact hw⟩
    cases hx
    cases hl
  | announced _ _ hc =>
    refine ⟨fun x hx => ?_, fun _ _ hw => by rw [hc]; exact hw⟩
    cases hx
  | @refilled load fields hb =>
    refine ⟨fun x hx hl => ?_, others ⟨_, hb, rfl⟩ fun hne => takeSnapshot_cell hsup hne⟩
    obtain ⟨rfl, hcells⟩ := takeSnapshot_intent? hsup hx
    cases hl
    rw [hcells]
    exact howner _ _ hb rfl
  | @started load hb =>
    refine ⟨fun x hx hl => ?_, others ⟨_, hb, rfl⟩ fun hne => awaitStart_cell hne⟩
    obtain ⟨rfl, hv⟩ := awaitStart_intent? hx
    cases hl
    rw [hv]
    exact howner _ _ hb rfl

end

end World

end Muster
