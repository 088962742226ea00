import Muster.Proofs.StableMembers

/-!
# The cache is ahead of the listeners

A listener that comes to a loaded cluster finds an updater in front of it, and keeps it there
(`Led`). So whenever a task calls the listener with a message, the message has been applied, and
whenever it calls the listener after subscribing, the hash has been read again in the same attempt
and the set replaced (`Pass.Ahead`): nobody but the task that runs a cluster changes the cache of a
cluster that is loaded.
-/
namespace Muster

/-! ## Who comes first -/

/-- An updater stands before each place of a listener. -/
def Led (x : Listener) : List Listener → Prop
  | [] => True
  | l :: rest => l.isUpdater = true ∨ l ≠ x ∧ Led x rest

namespace Led

variable {x l : Listener} {ls : List Listener}

theorem of_not_mem (h : x ∉ ls) : Led x ls := by
  induction ls with
  | nil => trivial
  | cons l rest ih =>
    obtain ⟨hne, hrest⟩ := not_or.1 (mt List.mem_cons.2 h)
    exact .inr ⟨Ne.symm hne, ih hrest⟩

/-- Who comes later stands behind the updater that is there. -/
theorem append (h : Led x ls) (hu : ∃ u ∈ ls, u.isUpdater = true) (more : List Listener) :
    Led x (ls ++ more) := by
  induction ls with
  | nil =>
    obtain ⟨u, hmem, -⟩ := hu
    cases hmem
  | cons l rest ih =>
    rcases h with hl | ⟨hne, hrest⟩
    · exact .inl hl
    · obtain ⟨u, hmem, hup⟩ := hu
      rcases List.mem_cons.1 hmem with rfl | hmem
      · exact .inl hup
      · exact .inr ⟨hne, ih hrest ⟨u, hmem, hup⟩⟩

/-- No updater leaves. -/
theorem erase (h : Led x ls) (hl : l.isUpdater = false) : Led x (ls.erase l) := by
  induction ls with
  | nil => trivial
  | cons k rest ih =>
    rw [List.erase_cons]
    split
    · next hk =>
      rw [beq_iff_eq] at hk
      subst hk
      exact (h.resolve_left (by simp [hl])).2
    · exact h.imp_right (And.imp_right ih)

theorem tail (h : Led x (l :: ls)) (hl : l.isUpdater = false) : Led x ls :=
  (h.resolve_left (by simp [hl])).2

/-- A listener of a user that is next has no updater before it. -/
theorem not_head (hx : x.isUpdater = false) : ¬ Led x (x :: ls) := by
  rintro (h | ⟨hne, -⟩)
  · simp [hx] at h
  · exact hne rfl

end Led

/-! ## Where a task stands -/

/-- The fields that were read of a hash, in the full pass of a stream. -/
abbrev Readings := Nat → List (String × String) → Prop

/-- The set tells of an address what a message says. -/
def Reflects (members : List Address) (message : String) : Prop :=
  ∃ e, Event.decode message = .ok e ∧ (e.address ∈ members ↔ e.kind = .register)

/-- In a pass an updater is called before the listener, or the cache is up to date already. -/
def Pass.Ahead (x : Listener) (readings : Readings) (members : List Address) (s : Nat)
    (rest : List Listener) : Pass → Prop
  | .full => Led x rest ∨ ∃ fields, readings s fields ∧ members = (addressesOf fields).eraseDups
  | .joined => True
  | .beforeDelivery _ audience => Led x audience
  | .delivery m => Led x rest ∨ Reflects members m

/-- The same where a task stands. An updater that is being called is going to bring the cache up to
date. -/
def Position.Ahead (x : Listener) (readings : Readings) (members : List Address) :
    Position → Prop
  | .passing s pass rest => pass.Ahead x readings members s rest
  | .calling _ .full _ (.reading _) _ => True
  | .calling s .full _ (.replied fields _) rest => Led x rest ∨ readings s fields
  | .calling s pass _ _ rest => pass.Ahead x readings members s rest
  | _ => True

/-- The next step changes the cache: an updater fills it or applies an event. -/
def Position.fills : Position → Bool
  | .calling _ _ _ (.replied _ _) _ => true
  | .passing _ (.delivery _) (l :: _) => l.isUpdater
  | _ => false

/-- The stream in whose full pass the task is about to call a listener. -/
def Position.fullPass? : Position → Option Nat
  | .passing s .full _ => some s
  | _ => none

section
variable {x l : Listener} {readings readings' : Readings} {members : List Address} {s : Nat}
  {rest : List Listener} {pass : Pass} {p : Position}

theorem Position.passing_of_fullPass? (h : p.fullPass? = some s) :
    ∃ rest, p = .passing s .full rest := by
  unfold fullPass? at h
  split at h
  · cases h
    exact ⟨_, rfl⟩
  · cases h

theorem Pass.Ahead.mono (h : pass.Ahead x readings members s rest)
    (hr : ∀ s fields, readings s fields → readings' s fields) :
    pass.Ahead x readings' members s rest := by
  cases pass with
  | full => exact h.imp_right (Exists.imp fun fields => And.imp_left (hr s fields))
  | _ => exact h

/-- A listener that is no updater makes no difference. -/
theorem Pass.Ahead.tail (h : pass.Ahead x readings members s (l :: rest))
    (hl : l.isUpdater = false) : pass.Ahead x readings members s rest := by
  cases pass with
  | full => exact h.imp_left fun h => h.tail hl
  | delivery m => exact h.imp_left fun h => h.tail hl
  | _ => exact h

namespace Position

theorem Ahead.mono (h : p.Ahead x readings members)
    (hr : ∀ s fields, readings s fields → readings' s fields) : p.Ahead x readings' members := by
  cases p with
  | passing s pass rest => exact Pass.Ahead.mono h hr
  | calling s pass l cb rest =>
    cases pass with
    | full =>
      cases cb with
      | reading g => trivial
      | replied fields g => exact h.imp_right (hr s fields)
      | _ => exact h.imp_right (Exists.imp fun fields => And.imp_left (hr s fields))
    | _ => exact h
  | _ => trivial

theorem ahead_of_stream? (h : p.stream? = none) : p.Ahead x readings members := by
  cases p <;> trivial

theorem ahead_clear : p.clear.Ahead x readings members ↔ p.Ahead x readings members := by
  unfold Position.clear
  split
  · rfl
  · next s pass l g rest => cases pass <;> rfl
  · next s pass l fields g rest => cases pass <;> rfl
  · next s pass l name label stage more fault rest => cases pass <;> rfl
  · rfl

/-- Within a call that is no updater's. -/
theorem ahead_calling {cb : Callback} (hcb : (calling s pass l cb rest).reply? = none)
    (h : pass.Ahead x readings members s rest) :
    (calling s pass l cb rest).Ahead x readings members := by
  cases pass <;> cases cb <;> first | exact h | trivial

end Position

end

namespace World

variable {setup : Setup} {w v w' : World} {m : Move} {c : String} {x : Listener} {id : Nat}
  {t t' : Task} {readings readings' : Nat → Readings}

/-! ## Coming and going -/

theorem attach_of (w : World) (c c' : String) (l : Listener) :
    (w.attach setup c l).2.listeners.of c' = w.listeners.of c' ∨
      (w.attach setup c l).2.listeners.of c' = w.listeners.of c' ++ [l] := by
  unfold World.attach
  split
  · exact .inl rfl
  · split <;> by_cases hc : c = c'
    · subst hc
      exact .inr (by simp [World.updateTask, World.note])
    · exact .inl (by simp [World.updateTask, World.note, hc])
    · subst hc
      exact .inr (by simp [spawn, World.count, World.note])
    · exact .inl (by simp [spawn, World.count, World.note, hc])

theorem detach_of (w : World) (c c' : String) (l : Listener) :
    (w.detach c l).2.2.listeners.of c' = w.listeners.of c' ∨
      (w.detach c l).2.2.listeners.of c' = (w.listeners.of c').erase l := by
  unfold World.detach
  by_cases hl : l ∈ w.listeners.of c
  · have hof := Listeners.of_remove hl c'
    have hleft : (w.listeners.remove c l).2.of c' = w.listeners.of c' ∨
        (w.listeners.remove c l).2.of c' = (w.listeners.of c').erase l := by
      rw [hof]
      split
      · next hc => exact .inr (by rw [hc])
      · exact .inl rfl
    generalize w.listeners.remove c l = r at hleft
    obtain ⟨left, listeners⟩ := r
    cases left with
    | none => exact .inl rfl
    | some n =>
      cases n with
      | zero =>
        dsimp only
        cases w.handles.get? c <;> exact hleft
      | succ n => exact hleft
  · rw [Listeners.remove_of_not_mem hl]
    exact .inl rfl

/-- Whatever calls do, a served cluster keeps its updater in front of a listener. -/
theorem Edits.led (e : Edits setup w v) (h : Led x (w.listeners.of c)) (hs : w.Served c) :
    Led x (v.listeners.of c) ∧ v.Served c := by
  induction e with
  | aside ha =>
    rw [Served, ha.listeners]
    exact ⟨h, hs⟩
  | «attach» w c' l =>
    obtain ⟨u, hu, hup⟩ := hs
    rcases @attach_of setup w c' c l with heq | heq <;> rw [Served, heq]
    · exact ⟨h, u, hu, hup⟩
    · exact ⟨h.append ⟨u, hu, hup⟩ [l], u, List.mem_append_left _ hu, hup⟩
  | detach w c' name =>
    obtain ⟨u, hu, hup⟩ := hs
    rcases detach_of w c' c (.user name) with heq | heq <;> rw [Served, heq]
    · exact ⟨h, u, hu, hup⟩
    · have hne : u ≠ .user name := by
        rintro rfl
        cases hup
      exact ⟨h.erase rfl, u, (List.mem_erase_of_ne hne).2 hu, hup⟩
  | close w => exact ⟨h, hs⟩
  | trans _ _ ih ih' =>
    obtain ⟨h, hs⟩ := ih h hs
    exact ih' h hs

theorem Happens.led (hh : Happens setup w m w') (h : Led x (w.listeners.of c))
    (hs : w.Served c) : Led x (w'.listeners.of c) := by
  cases hh with
  | @acted who trace v after _ d hset =>
    rw [hset.listeners]
    exact (Edits.led (w := { w with trace }) d.edits h hs).1
  | rested hi => rwa [hi.listeners]
  | dropped _ hi => rwa [hi.listeners]
  | stopped _ hv hl =>
    rw [hl.1.listeners]
    rcases hv with rfl | ⟨k, rfl⟩ <;> exact h
  | strode _ _ _ hstride =>
    obtain ⟨v, hv, ha⟩ := hstride.near
    rwa [ha.listeners, hv.of]

/-! ## One step of the task -/

/-- In a move, a task of a cluster reads the hash for an updater that it has called in the full pass
of a stream. -/
structure Rereads (w : World) (m : Move) (w' : World) (c : String) (id s : Nat)
    (fields : List (String × String)) : Prop where
  step : m = .step (.task id)
  before : ∃ t u g rest, w.tasks[id]? = some t ∧ t.cluster = c ∧ u.isUpdater = true ∧
    t.position = .calling s .full u (.reading g) rest
  after : ∃ t u g rest, w'.tasks[id]? = some t ∧
    t.position = .calling s .full u (.replied fields g) rest
  fields : fields = (w.store.hash (registryKey c)).entries

/-- Where an action of a listener leaves the task that called it. -/
theorem settleAction_at {s : Nat} {pass : Pass} {l : Listener} {rest : List Listener}
    {name label : String} {more : List (String × Action)} {fault : Option Fault} {q : Position}
    (hv : At id v q) (p : Progress) : ∃ cb, (Position.calling s pass l cb rest).reply? = none ∧
      At id (v.settleAction id s pass l rest name label more fault p)
        (.calling s pass l cb rest) := by
  cases p with
  | finished a =>
    have hv : At id (v.note (.did name label a)) q := hv
    exact ⟨.acting name more fault, rfl, hv.moveTask _⟩
  | paused stage => exact ⟨.awaiting name label stage more fault, rfl, hv.moveTask _⟩

/-- A step of the task that runs the cluster. -/
theorem TaskStep.ahead {readings : Readings} (step : TaskStep setup w id t w')
    (ht : w.tasks[id]? = some t) (hproper : t.position.IsProper)
    (h : t.position.Ahead x readings (w.caches.entry t.cluster).members)
    (hled : Led x (w.listeners.of t.cluster))
    (hn : (w.caches.entry t.cluster).members.Nodup)
    (hread : ∀ s fields, w.Rereads (.step (.task id)) w' t.cluster id s fields → readings s fields)
    (hkept : t.position.fills = false →
      (w'.caches.entry t.cluster).members = (w.caches.entry t.cluster).members)
    (ht' : w'.tasks[id]? = some t') :
    t'.position.Ahead x readings (w'.caches.entry t.cluster).members := by
  have hat : At id w t.position := ⟨t, ht, rfl⟩
  have left : Leaves id w w' →
      t'.position.Ahead x readings (w'.caches.entry t.cluster).members := by
    rintro ⟨-, u, hu, hstream⟩
    cases hu.symm.trans ht'
    exact Position.ahead_of_stream? hstream
  -- Unless an updater does it, the step leaves the cache as it is.
  have quiet : ∀ {p : Position}, At id w' p → t.position.fills = false →
      p.Ahead x readings (w.caches.entry t.cluster).members →
      t'.position.Ahead x readings (w'.caches.entry t.cluster).members := by
    intro p hp hfills hahead
    rw [hkept hfills, hp.position_eq ht']
    exact hahead
  cases step with
  | @parked p hp =>
    rw [(hat.moveTask p).position_eq ht']
    exact Position.ahead_clear.1 (hp ▸ Position.ahead_clear.2 h)
  | refused hp hopen =>
    obtain ⟨hv, hmid⟩ :=
      (Apart.openStream w (.task id) _).result (perform_tasks w _ _ _) hat hopen
    exact left (hv.leaves (dropAttempt_leaves hmid))
  | @opened g s v hp hopen =>
    obtain ⟨hv, hmid⟩ :=
      (Apart.openStream w (.task id) _).result (perform_tasks w _ _ _) hat hopen
    have hmid : At id (v.takePending id t.cluster).2 t.position := hmid
    refine quiet (hmid.moveTask (.passing s .full (v.listeners.of t.cluster)))
      (by rw [hp]; rfl) (.inl ?_)
    rwa [hv.listeners]
  | @passed s pass hp =>
    rw [hp] at h
    cases pass with
    | full =>
      have hmove : At id (w.finishPass id t s .full) (.listening s) :=
        ⟨_, by simp [finishPass, World.updateTask, (publish_others w id t .active).1, ht]; rfl, rfl⟩
      exact quiet hmove (by rw [hp]; rfl) trivial
    | beforeDelivery msg audience =>
      exact quiet (hat.moveTask _) (by rw [hp]; rfl) (.inl h)
    | _ => exact quiet (hat.moveTask _) (by rw [hp]; rfl) trivial
  | @called s pass l rest hp =>
    rw [hp] at h
    cases l with
    | user name =>
      have hnoted : ∀ visits, At id { w.note (.called id (.user name) pass.hook) with visits }
        t.position := fun _ => hat
      exact quiet ((hnoted _).moveTask _) (by rw [hp]; cases pass <;> rfl)
        (Position.ahead_calling rfl (h.tail rfl))
    | updater k n =>
      cases pass with
      | delivery msg =>
        rcases call_updater ht with hl | ⟨e, hdecode, hapart, -, hgoes⟩
        · exact left hl
        · rw [hgoes.position_eq ht', hapart.caches]
          refine .inr ⟨e, hdecode, ?_⟩
          simp only [World.note, World.count, updateCache, Caches.entry_update, if_true]
          exact Membership.mem_apply hn e
      | _ =>
        have hnoted : At id (w.note (.called id (.updater k n) .sync)) t.position := hat
        exact quiet (hnoted.moveTask _) (by rw [hp]; rfl) (by trivial)
  | @unread s pass l g rest f v hp hr =>
    obtain ⟨hv, hmid⟩ := (Apart.readFields w (.task id) _).result (perform_tasks w _ _ _) hat hr
    have hb : pass.hook.isBroken (some f) = true := by
      rw [hp] at hproper
      cases pass with
      | delivery msg => cases hproper.2
      | _ => rfl
    exact left (hv.leaves (afterCallback_leaves hmid hb))
  | @read s pass l g rest fields v hp hr =>
    obtain ⟨hv, hmid⟩ := (Apart.readFields w (.task id) _).result (perform_tasks w _ _ _) hat hr
    obtain ⟨-, hfields⟩ := readFields_store w (.task id) (registryKey t.cluster)
    have hgoes := hmid.moveTask (.calling s pass l (.replied fields .arriving) rest)
    refine quiet hgoes (by rw [hp]; rfl) ?_
    rw [hp] at h hproper
    cases pass with
    | full =>
      obtain ⟨u, hu, hpos⟩ := hgoes
      exact .inr (hread s fields ⟨rfl, ⟨t, l, g, rest, ht, rfl, hproper.1, hp⟩,
        ⟨u, l, .arriving, rest, hu, hpos⟩, hfields fields (by rw [hr])⟩)
    | delivery msg => cases hproper.2
    | _ => exact h
  | @replaced s pass l g rest fields hp =>
    have hmid : At id (w.updateCache t.cluster fun m => m.replace (addressesOf fields))
        t.position := hat
    obtain ⟨hapart, -, hgoes⟩ := @afterCallback_goes setup id t _ _ hmid s pass l none rest rfl
    rw [hgoes.position_eq ht']
    rw [hp] at h hproper
    cases pass with
    | full =>
      refine h.imp_right fun hread => ⟨fields, hread, ?_⟩
      rw [hapart.caches]
      simp [World.note, updateCache, Caches.entry_update, Membership.replace]
    | delivery msg => cases hproper.2
    | _ => exact h
  | @returned s pass l name fault rest hp =>
    cases hb : pass.hook.isBroken fault with
    | true => exact left (afterCallback_leaves hat hb)
    | false =>
      obtain ⟨-, -, hgoes⟩ := @afterCallback_goes setup id t w _ hat s pass l fault rest hb
      refine quiet hgoes (by rw [hp]; rfl) ?_
      rw [hp] at h
      cases pass <;> exact h
  | @acted s pass l name label a more fault rest v p hp hbegin =>
    have he : Edits setup w v := by
      have hdone := @begin_edits setup (w.note (.doing name label)) (.task id) a
      rw [hbegin] at hdone
      exact (Edits.aside (.note w rfl)).trans hdone
    obtain ⟨u, hu, -⟩ := (Elsewhere.edits he).task t ht
    obtain ⟨cb, hcb, hgoes⟩ := settleAction_at ⟨u, hu, rfl⟩ p
    refine quiet hgoes (by rw [hp]; rfl) (Position.ahead_calling hcb ?_)
    rw [hp] at h
    cases pass <;> exact h
  | @resumed s pass l name label stage more fault rest v p hp hresume =>
    obtain ⟨u, hu, -⟩ := (Elsewhere.edits (resume_edits hresume)).task t ht
    obtain ⟨cb, hcb, hgoes⟩ := settleAction_at ⟨u, hu, rfl⟩ p
    refine quiet hgoes (by rw [hp]; rfl) (Position.ahead_calling hcb ?_)
    rw [hp] at h
    cases pass <;> exact h
  | @woken s v hp hnot hv =>
    have hmid : At id (v.takePending id t.cluster).2 t.position :=
      ⟨{ t with notified := false }, by simp [World.takePending, World.note, hv,
        World.updateTask, ht], rfl⟩
    exact quiet (hmid.moveTask _) (by rw [hp]; rfl) trivial
  | @received s payload store hp hnot hnext =>
    have hv : Apart id w ({ w with store }.note (.read id (.message payload))) :=
      (Apart.stored w (.next hnext)).trans (.note _ rfl)
    have hmid : At id ({ w with store }.note (.read id (.message payload))) t.position := hat
    rcases receive_cases hmid payload with hl | ⟨msg, -, -, -, hgoes⟩
    · exact left (hv.leaves hl)
    · exact quiet hgoes (by rw [hp]; rfl) hled
  | @closed s r f store hp hnot hnext hr =>
    have hv : Apart id w ({ w with store }.note (.read id r)) :=
      (Apart.stored w (.next hnext)).trans (.note _ rfl)
    have hmid : At id ({ w with store }.note (.read id r)) t.position := hat
    exact left (hv.leaves (endAttempt_leaves hmid f))
  | retried hp hd =>
    have hmid : At id (w.count .subscriptionRestarts) t.position := hat
    exact quiet (hmid.moveTask (.opening .arriving)) (by rw [hp]; rfl) trivial

/-! ## Moves -/

/-- Only the task that runs a cluster changes the cache of a cluster that is loaded. -/
theorem members_change (hs : Supervised w) (hk : Kept w) (hp : w.Proper)
    (hl : w.cell c = .loaded) (hm : w.move setup m = some w')
    (hne : (w'.caches.entry c).members ≠ (w.caches.entry c).members) :
    ∃ id t, m = .step (.task id) ∧ w.tasks[id]? = some t ∧ t.cluster = c ∧ t.isEnded = false ∧
      t.cancelled = false ∧ t.position.fills = true := by
  rcases (move_happens hs hp hm).members hs hne with ⟨who, hfill⟩ | ⟨id, t, rfl, ht, hc, hcall⟩
  · have hseat : w.Seated c := .inl hl
    exact absurd hfill (hseat.not_fill hk)
  · have hfills : t.position.fills = true := by
      rcases hcall with hr | ⟨s, msg, l, rest, hpos, hup⟩
      · unfold Position.reply? at hr
        split at hr
        · next hpos => rw [hpos]; rfl
        · cases hr
      · rw [hpos]
        exact hup
    have he : t.isEnded = false := Task.isEnded_of_ne fun hend => by
      rw [hend] at hfills
      cases hfills
    refine ⟨id, t, rfl, ht, hc, he, ?_, hfills⟩
    cases hcan : t.cancelled with
    | false => rfl
    | true =>
      have hd : w.dropped? (.step (.task id)) = some (.task id) := by simp [dropped?, ht, hcan, he]
      exact absurd (dropped_members hd hm c) hne

/-- A cluster is run by one task. -/
theorem Supervised.alone (hs : Supervised w) {id' : Nat} {u : Task} (ht : w.tasks[id]? = some t)
    (he : t.isEnded = false) (hc : t.cancelled = false) (hu : w.tasks[id']? = some u)
    (he' : u.isEnded = false) (hc' : u.cancelled = false) (hcluster : u.cluster = t.cluster) :
    id = id' := by
  have h := hs.held (charge?_of_task ht) he hc
  have h' := hs.held (charge?_of_task hu) he' hc'
  exact Option.some.inj (h.symm.trans ((congrArg _ hcluster.symm).trans h'))

/-- The updaters of a cluster are ahead of a listener, where it is registered and where the task
that runs the cluster is going to call it. -/
structure Ahead (x : Listener) (c : String) (readings : Nat → Readings) (w : World) : Prop where
  led : Led x (w.listeners.of c)
  tasks : ∀ {id : Nat} {t : Task}, w.tasks[id]? = some t → t.cluster = c → t.cancelled = false →
    t.position.Ahead x (readings id) (w.caches.entry c).members

namespace Ahead

theorem store (h : Ahead x c readings w) (store : Memory) : Ahead x c readings { w with store } :=
  ⟨h.led, h.tasks⟩

theorem mono (h : Ahead x c readings w)
    (hr : ∀ id s fields, readings id s fields → readings' id s fields) : Ahead x c readings' w :=
  ⟨h.led, fun ht hc hcan => (h.tasks ht hc hcan).mono (hr _)⟩

theorem move (h : Ahead x c readings w) (hs : Supervised w) (hk : Kept w) (hp : w.Proper)
    (hl : w.cell c = .loaded) (hm : w.move setup m = some w')
    (hread : ∀ id s fields, w.Rereads m w' c id s fields → readings id s fields) :
    Ahead x c readings w' where
  led := (move_happens hs hp hm).led h.led (hk.loaded c hl)
  tasks := by
    intro id t' ht' hc hcan
    by_cases hstep : m = .step (.task id)
    · subst hstep
      obtain ⟨t, ht, hgo⟩ := Option.bind_eq_some_iff.1 hm
      obtain ⟨u, hu, hcluster, hcancel⟩ := (Lasts.move hm).task ht
      cases hu.symm.trans ht'
      unfold stepTask at hgo
      split at hgo
      · cases hgo
      · split at hgo
        · next hstop => simp [hcancel hstop] at hcan
        · next hlive =>
          have hct : t.cluster = c := hcluster.symm.trans hc
          subst hct
          have hahead := h.tasks ht rfl (by simpa using hlive)
          refine (advanceTask_cases hgo).ahead ht (hp id t ht) hahead h.led (hk.nodup _)
            (fun s fields => hread id s fields) (fun hquiet => ?_) ht'
          refine Decidable.byContradiction fun hne => ?_
          obtain ⟨id', u, hid, hu, -, -, -, hfills⟩ := members_change hs hk hp hl hm hne
          cases hid
          cases hu.symm.trans ht
          cases hfills.symm.trans hquiet
    · cases hstream : t'.position.stream? with
      | none => exact Position.ahead_of_stream? hstream
      | some s =>
        obtain ⟨t, ht, hpos⟩ := stood_still ht' hstream hm hstep
        obtain ⟨u, hu, hcluster, hcancel⟩ := (Lasts.move hm).task ht
        cases hu.symm.trans ht'
        have hct : t.cluster = c := hcluster.symm.trans hc
        have hlive : t.cancelled = false := by
          cases hcan' : t.cancelled with
          | false => rfl
          | true => simp [hcancel hcan'] at hcan
        have he : t.isEnded = false := by
          rw [← Position.stream?_clear, hpos, Position.stream?_clear] at hstream
          refine Task.isEnded_of_ne fun hend => ?_
          rw [hend] at hstream
          cases hstream
        -- Nobody else runs the cluster.
        have hsame : (w'.caches.entry c).members = (w.caches.entry c).members := by
          refine Decidable.byContradiction fun hne => ?_
          obtain ⟨id', u, rfl, hu, huc, hue, hucan, -⟩ := members_change hs hk hp hl hm hne
          exact hstep (by rw [hs.alone hu hue hucan ht he hlive (hct.trans huc.symm)])
        rw [hsame, ← Position.ahead_clear, hpos, Position.ahead_clear]
        exact h.tasks ht hct hlive

end Ahead

/-! ## Calls of a listener -/

/-- A task makes the mark of a call in a step of its own, and the listener was the next one. -/
theorem calls_next {l : Listener} {hook : Hook} (hr : Recorded setup w) (hr' : Recorded setup w')
    (ht : w.tasks[id]? = some t) (hm : w.move setup m = some w')
    (hmark : w'.trace = .called id l hook :: w.trace) :
    t.cancelled = false ∧
      ∃ s pass rest, t.position = .passing s pass (l :: rest) ∧ pass.hook = hook := by
  have hgrown : w'.trace ≠ w.trace := by simp [hmark]
  have hstep : m = .step (.task id) := by
    refine Classical.byContradiction fun hne => ?_
    rcases Elsewhere.move hm hne with rfl | h
    · cases hm
      exact hgrown rfl
    · obtain ⟨ms, htrace, hms⟩ := h.trace
      have hone : [.called id l hook] = ms := List.append_cancel_right (hmark.symm.trans htrace)
      exact hms (.called id l hook) (by simp [← hone]) rfl
  subst hstep
  obtain ⟨u, hu, hgo⟩ := Option.bind_eq_some_iff.1 hm
  cases hu.symm.trans ht
  obtain ⟨t', ht', hcluster, -⟩ := (Lasts.move hm).task ht
  -- What the record tells of the task, before the mark and of the mark.
  have hlaws := hr'.laws id t' ht'
  rw [hmark, hcluster] at hlaws
  obtain ⟨hphase, hnext⟩ := hlaws.1 rfl
  have hfollows := (hr.fits id t ht).follows
  generalize attempt setup t.cluster id w.trace = a at hphase hnext hfollows
  unfold stepTask at hgo
  split at hgo
  · cases hgo
  · next hend =>
    split at hgo
    · next hcan =>
      have hended : ∃ past, (w.stopTask id t).trace = .ended id :: past := ⟨_, rfl⟩
      obtain ⟨past, hpast⟩ := hended
      cases hgo
      rw [hpast] at hmark
      cases hmark
    · next hcan =>
      refine ⟨by simpa using hcan, ?_⟩
      cases hp : t.position with
      | passing s pass rest =>
        rw [hp] at hfollows
        obtain ⟨-, hdue, -⟩ := hfollows
        rw [hdue, List.prefix_append_right_inj] at hnext
        cases rest with
        | cons l' rest =>
          have hhead : (l, hook) = (l', pass.hook) := by
            cases pass <;> simpa [due, visitsTo, Pass.hook] using hnext
          cases hhead
          exact ⟨s, pass, rest, rfl, rfl⟩
        | nil =>
          -- Only before a delivery something is due when the pass has called everybody.
          cases pass with
          | beforeDelivery msg audience =>
            rw [advanceTask, hp] at hgo
            cases hgo
            exact absurd rfl hgrown
          | _ => simp [due, visitsTo] at hnext
      | calling s pass k cb rest =>
        rw [hp] at hfollows
        cases hphase.symm.trans hfollows.1
      | listening s =>
        rw [hp] at hfollows
        have hle := hnext.length_le
        rw [hfollows.2.1, List.length_append, List.length_singleton] at hle
        omega
      | opening g =>
        rw [hp] at hfollows
        cases hphase.symm.trans hfollows
      | waiting due =>
        rw [hp] at hfollows
        cases hphase.symm.trans hfollows
      | ended => simp [Task.isEnded, hp] at hend

/-! ## Newcomers -/

/-- A listener that was never attached is nowhere. -/
theorem Ahead.newcomer (hr : Recorded setup w) (h : ∀ joined, .attached c x joined ∉ w.trace) :
    Ahead x c readings w where
  led := by
    rw [hr.booked.of]
    exact .of_not_mem fun hmem => (attached_of_registered hmem).elim h
  tasks := by
    intro id t ht hc hcan
    subst hc
    have hfollows := (hr.fits id t ht).follows
    have absent : ∀ {pass : Pass} {rest : List Listener} (s : Nat) {calls : List Visit},
        (attempt setup t.cluster id w.trace).agenda = calls ++ due pass rest → Led x rest ∧
        pass.Ahead x (readings id) (w.caches.entry t.cluster).members s rest := by
      intro pass rest s calls hdue
      have hfree : ∀ hook, (x, hook) ∉ due pass rest := fun hook hmem =>
        (attached_of_agenda (by rw [hdue]; exact List.mem_append_right calls hmem)).elim h
      have hrest : Led x rest :=
        .of_not_mem fun hmem => (exists_mem_due pass hmem).elim hfree
      refine ⟨hrest, ?_⟩
      cases pass with
      | full => exact .inl hrest
      | joined => trivial
      | beforeDelivery msg audience =>
        exact .of_not_mem fun hmem => hfree (.event msg)
          (List.mem_append_right _ (List.mem_map.2 ⟨x, hmem, rfl⟩))
      | delivery msg => exact .inl hrest
    cases hp : t.position with
    | passing s pass rest =>
      rw [hp] at hfollows
      exact (absent s hfollows.2.1).2
    | calling s pass l cb rest =>
      rw [hp] at hfollows
      obtain ⟨hled, hahead⟩ := absent s hfollows.2.1
      cases pass <;> cases cb <;> first | exact hahead | trivial | exact .inl hled
    | _ => trivial

end World

namespace Fleet

variable {setups : Nat → Setup} {f g h h' : Fleet} {i id : Nat} {w v u y y' : World} {m m' : Move}
  {r : Answer} {c name : String} {hook : Hook} {t : Task} {x : Listener}

/-- In a move on the way from a state to another one, a task read the hash of its cluster for an
updater, in the full pass of a stream. -/
def Reread (setups : Nat → Setup) (i : Nat) (c : String) (f g : Fleet) (id : Nat) : Readings :=
  fun s fields => ∃ h m h' w w', Reaches setups f h ∧ h.world? i = some w ∧
    h.move setups i m = some h' ∧ h'.world? i = some w' ∧ Reaches setups h' g ∧
    w.Rereads m w' c id s fields

/-- A listener that comes to a loaded cluster stays behind the updaters. -/
theorem ahead_of_loaded (hf : Reachable setups f) (hw : f.world? i = some w)
    (hl : w.cell c = .loaded) (hnew : ∀ joined, .attached c x joined ∉ w.trace)
    (hr : Reaches setups f g) (hv : g.world? i = some v) :
    World.Ahead x c (Reread setups i c f g) v := by
  induction hr generalizing v with
  | refl =>
    cases hw.symm.trans hv
    exact .newcomer ((Streamed.of_reachable hf).recorded hw) hnew
  | @move g h j m past next ih =>
    obtain ⟨y, y', hy, hm, -, hi, hothers⟩ := move_cases next
    have grown : ∀ id s fields, Reread setups i c f g id s fields →
        Reread setups i c f h id s fields := by
      rintro id s fields ⟨f₁, m₁, f₂, w₁, w₂, h₁, hw₁, hm₁, hw₂, h₂, hread⟩
      exact ⟨f₁, m₁, f₂, w₁, w₂, h₁, hw₁, hm₁, hw₂, h₂.move next, hread⟩
    by_cases hj : j = i
    · subst hj
      cases hi.symm.trans hv
      have hg := hf.reaches past
      obtain ⟨hkept, hproper⟩ := kept_of_reachable hg hy
      exact ((ih hy).mono grown).move ((Streamed.of_reachable hg).supervised hy) hkept hproper
        (past.loaded hf hw hl hy) hm fun id s fields hread =>
          ⟨g, m, h, y, v, past, hy, next, hi, .refl, hread⟩
    · rw [hothers i hj] at hv
      obtain ⟨z, hz, rfl⟩ := Option.map_eq_some_iff.1 hv
      exact ((ih hz).mono grown).store _

/-- The cache is ahead of the listeners of users. Once a lookup of a cluster has succeeded, every
listener that comes to the cluster for the first time is called with a message only when the
message has been applied to the set, and it is called in a full pass only when the hash was read
again in that attempt and the set replaced by what was read. -/
theorem cache_ahead (hf : Reachable setups f) (hw : f.world? i = some w)
    (hx : w.Answers (setups i) m r v) (hc : w.looksUp? (setups i) m = some c)
    (hok : ∀ fault, r ≠ .failed fault) (next : f.move setups i m = some g)
    (hu : g.world? i = some u) (hnew : ∀ joined, .attached c (.user name) joined ∉ u.trace)
    (hr : Reaches setups g h) (hy : h.world? i = some y) (ht : y.tasks[id]? = some t)
    (htc : t.cluster = c) (last : h.move setups i m' = some h') (hy' : h'.world? i = some y')
    (hcall : y'.trace = .called id (.user name) hook :: y.trace) :
    (∀ msg, hook = .event msg → Reflects (y.caches.entry c).members msg) ∧
    ∀ s rest, t.position = .passing s .full rest → ∃ fields, Reread setups i c g h id s fields ∧
      (y.caches.entry c).members = (addressesOf fields).eraseDups := by
  have hsup := (Streamed.of_reachable hf).supervised hw
  have hg : Reachable setups g := hf.reaches (Reaches.refl.move next)
  -- The cluster is loaded when the lookup is answered.
  have hl : u.cell c = .loaded := by
    obtain ⟨w₁, w₂, hw₁, hm, -, hi, -⟩ := move_cases next
    cases hw.symm.trans hw₁
    cases hi.symm.trans hu
    rcases hx.lookup hsup hc with ⟨fault, hfail⟩ | ⟨load, -, -, hcell⟩
    · exact absurd hfail (hok fault)
    · rwa [World.cell, (hx.settles hm).1]
  have hahead := ahead_of_loaded hg hu hl hnew hr hy
  obtain ⟨y₁, y₂, hy₁, hm, -, hi, -⟩ := move_cases last
  cases hy.symm.trans hy₁
  cases hi.symm.trans hy'
  have hh := hg.reaches hr
  have hh' := hh.reaches (Reaches.refl.move last)
  obtain ⟨hcan, s, pass, rest, hpos, rfl⟩ :=
    World.calls_next ((Streamed.of_reachable hh).recorded hy)
      ((Streamed.of_reachable hh').recorded hy') ht hm hcall
  have hpass := hahead.tasks ht htc hcan
  rw [hpos] at hpass
  -- The listener is the next one, so nobody stands before it.
  have hnot : ¬ Led (.user name) (.user name :: rest) := Led.not_head rfl
  refine ⟨fun msg hevent => ?_, fun s' rest' hfull => ?_⟩
  · cases pass with
    | delivery msg' =>
      cases hevent
      exact hpass.resolve_left hnot
    | _ => cases hevent
  · cases hpos.symm.trans hfull
    exact hpass.resolve_left hnot

/-- A listener is attached after a lookup. It is called with a message once the set has the address,
and, when the stream was cut, to synchronise once the hash was read on the new stream. -/
theorem cache_ahead_reconnect : ∃ g h k y z,
    Reaches (fun _ => .mapped "me@here" "c") g h ∧ h.world? 0 = some y ∧
    Reflects (y.caches.entry "c").members "10.0.0.1:8091-REGISTER" ∧
    Reaches (fun _ => .mapped "me@here" "c") h k ∧ k.world? 0 = some z ∧
    ∃ fields, Reread (fun _ => .mapped "me@here" "c") 0 "c" g k 0 1 fields ∧
      (z.caches.entry "c").members = (addressesOf fields).eraseDups := by
  obtain ⟨f, hf, hp⟩ := (Option.any_eq_true _ _).1 (show
    ((start .usual 1).run (fun _ => .mapped "me@here" "c")
      ((0, .ask 0 (.lookup "k")) :: List.replicate 2 (0, .step (.call 0)) ++
        List.replicate 5 (0, .step (.task 0)))).any (fun f => (f.world? 0).any fun w =>
      w.looksUp? (.mapped "me@here" "c") (.step (.call 0)) == some "c" &&
      ((w.calls.get? 0).any fun stage =>
        (w.resume (.mapped "me@here" "c") (.call 0) stage).any fun p =>
          p.2 == .finished (.addresses [])) &&
      (f.move (fun _ => .mapped "me@here" "c") 0 (.step (.call 0))).any fun g =>
        ((g.world? 0).any fun u => u.trace.all fun m =>
          !(m == .attached "c" (.user "l") true || m == .attached "c" (.user "l") false)) &&
        (g.run (fun _ => .mapped "me@here" "c") ([(0, .ask 1 (.attach "c" "l")),
          (0, .ask 2 (.send "registry.redis.c" ["10.0.0.1:8091-REGISTER"]))] ++
          List.replicate 7 (0, .step (.task 0)))).any fun h => (h.world? 0).any fun y =>
          ((y.tasks[0]?).any fun t => t.cluster == "c") &&
          ((h.move (fun _ => .mapped "me@here" "c") 0 (.step (.task 0))).any fun h' =>
            (h'.world? 0).any fun y' => y'.trace ==
              .called 0 (.user "l") (.event "10.0.0.1:8091-REGISTER") :: y.trace) &&
          (h.run (fun _ => .mapped "me@here" "c") (List.replicate 3 (0, .step (.task 0)) ++
            [(0, .ask 3 (.disconnect "registry.redis.c")), (0, .step (.task 0)),
              (0, .elapse 500000000)] ++ List.replicate 5 (0, .step (.task 0)))).any fun k =>
            (k.world? 0).any fun z => ((z.tasks[0]?).any fun t => t.cluster == "c" &&
              t.position.fullPass? == some 1) &&
            (k.move (fun _ => .mapped "me@here" "c") 0 (.step (.task 0))).any fun k' =>
              (k'.world? 0).any fun z' => z'.trace == .called 0 (.user "l") .sync :: z.trace) = true
    by decide +kernel)
  simp only [Option.any_eq_true, Bool.and_eq_true, beq_iff_eq, List.all_eq_true, Bool.not_eq_true',
    Bool.or_eq_false_iff, beq_eq_false_iff_ne] at hp
  obtain ⟨w, hw, ⟨hc, stage, hstage, p, hresume, hfinished⟩, g, next, ⟨u, hu, hnew⟩, h, hgh, y, hy,
    ⟨⟨t, ht, htc⟩, h', last, y', hy', hcall⟩, k, hhk, z, hz, ⟨t', ht', htc', hpos⟩, k', last',
    z', hz', hcall'⟩ := hp
  have hreach : Reachable (fun _ => .mapped "me@here" "c") f := reachable_of_run rfl hf
  have hx : w.Answers (.mapped "me@here" "c") (.step (.call 0)) (.addresses []) p.1 :=
    .called hstage (by rw [hresume, ← hfinished])
  have hnew' : ∀ joined, .attached "c" (.user "l") joined ∉ u.trace := by
    intro joined hmem
    cases joined with
    | true => exact (hnew _ hmem).1 rfl
    | false => exact (hnew _ hmem).2 rfl
  have hgh := reaches_of_run hgh
  have hhk := reaches_of_run hhk
  obtain ⟨hevent, -⟩ := cache_ahead hreach hw hx hc (by simp) next hu hnew' hgh hy ht htc last hy'
    hcall
  obtain ⟨-, hfull⟩ := cache_ahead hreach hw hx hc (by simp) next hu hnew' (hgh.trans hhk) hz ht'
    htc' last' hz' hcall'
  obtain ⟨rest, hp⟩ := Position.passing_of_fullPass? hpos
  exact ⟨g, h, k, y, z, hgh, hy, hevent _ rfl, hhk, hz, hfull 1 rest hp⟩

end Fleet

end Muster
