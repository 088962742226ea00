import Muster.Proofs.Delivery
import Muster.Proofs.TaskEffects

/-!
# What happens in a move

Every move of a client is the deed of an actor, a stride of a task, a load or another call given up,
or touches neither caches nor hashes (`Happens`). From this it follows move by move what is `Kept`,
and what a task that has a stream finds (`Happens.turn`): an updater in its queue, or the cache as
it was, or it has made a stride.
-/
namespace Muster

namespace World

variable {setup : Setup} {w v w' : World} {id : Nat} {t : Task} {m : Move}

/-- The action that begins with a move. -/
def action? (w : World) : Move → Option Action
  | .ask _ a => some a
  | .step (.task id) => (w.tasks[id]?).bind fun t => t.position.action?
  | _ => none

/-- The move begins an action that reaches into the store past the calls of a client. -/
def Loose (w : World) (m : Move) : Prop := ∃ a, w.action? m = some a ∧ a.isOutside = true

/-- The actor whose action is given up in a move. -/
def dropped? (w : World) : Move → Option Actor
  | .drop id => some (.call id)
  | .step (.task id) =>
    if (w.tasks[id]?).any fun t => t.cancelled && !t.isEnded then some (.task id) else none
  | _ => none

/-- The move gives up a load that has refilled its cache and waits for the first attempt. -/
def Hasty (w : World) (m : Move) : Prop :=
  ∃ who c, w.dropped? m = some who ∧ w.intent? who = some (.start c)

/-- All tasks stand properly. -/
def Proper (w : World) : Prop :=
  ∀ (id : Nat) (t : Task), w.tasks[id]? = some t → t.position.IsProper

/-! ## Moves -/

/-- Only who has what in mind changes, how far a command has come, or who is in a cell. -/
structure Idles (w w' : World) : Prop where
  store : w'.store = w.store
  listeners : w'.listeners = w.listeners
  counters : w'.counters = w.counters
  trace : w'.trace = w.trace
  members : ∀ c, (w'.caches.entry c).members = (w.caches.entry c).members
  leads : ∀ {c id}, w'.Leads c id → w.Leads c id
  tasks : ∀ (id : Nat) (t' : Task), w'.tasks[id]? = some t' →
    ∃ t : Task, w.tasks[id]? = some t ∧ t.position.Alike t'.position

/-- What a move comes to, for those who keep a cache or write. -/
inductive Happens (setup : Setup) (w : World) (m : Move) (w' : World) : Prop where
  | acted {who : Actor} {trace : List Mark} {v : World} {after : Option Intent}
      (hq : Silent w { w with trace })
      (d : Deed setup (w.Loose m) who { w with trace } (w.intent? who) v after)
      (h : Settles who v w' after)
  | rested (h : Idles w w') (hi : ∀ who, w'.intent? who = w.intent? who)
      (hc : ∀ c, w'.cell c = w.cell c)
  | dropped {who : Actor} (hd : w.dropped? m = some who) (h : Idles w w')
      (hnone : w'.intent? who = none) (hi : ∀ who', who ≠ who' → w'.intent? who' = w.intent? who')
      (hc : ∀ c, w'.cell c = w.cell c ∨ w'.cell c = (w.cell c).leave who)
  | stopped {id : Nat} {v : World} (hd : w.dropped? m = some (.task id))
      (hv : v = w ∨ ∃ c, v = w.updateCell c (Cell.leave (.task id))) (h : Leaves id v w')
      (he : ∀ j, id ≠ j → Elsewhere j w w')
  | strode {id : Nat} {t : Task} (hm : m = .step (.task id)) (ht : w.tasks[id]? = some t)
      (hl : w.Leads t.cluster id) (h : Stride setup id t w w') (he : ∀ j, id ≠ j → Elsewhere j w w')

/-- A call that is given up leaves its cluster's cell. -/
theorem abandon_cases (w : World) (who : Actor) (stage : Stage) :
    w.abandon who stage = w ∨ ∃ c, w.abandon who stage = w.updateCell c (Cell.leave who) := by
  cases stage with
  | queued load => exact .inr ⟨load.cluster, rfl⟩
  | reading load => exact .inr ⟨load.cluster, rfl⟩
  | replied load => exact .inr ⟨load.cluster, rfl⟩
  | starting load => exact .inr ⟨load.cluster, rfl⟩
  | _ => exact .inl rfl

theorem cell_of_left {who : Actor} (hv : v = w ∨ ∃ c, v = w.updateCell c (Cell.leave who))
    (c : String) : v.cell c = w.cell c ∨ v.cell c = (w.cell c).leave who := by
  rcases hv with rfl | ⟨k, rfl⟩
  · exact .inl rfl
  · rw [cell, cell_updateCell]
    split
    · exact .inr rfl
    · exact .inl rfl

theorem dropCall_happens (w : World) (id : Nat) : Happens setup w (.drop id) (w.dropCall id) := by
  unfold dropCall
  split
  · next hnone =>
    exact .rested ⟨rfl, rfl, rfl, rfl, fun _ => rfl, fun h => h,
      fun _ t ht => ⟨t, ht, .refl _⟩⟩ (fun _ => rfl) fun _ => rfl
  · next stage hstage =>
    have others : ∀ (v : World), v.calls = w.calls → v.tasks = w.tasks →
        ({ v with calls := v.calls.erase id } : World).intent? (.call id) = none ∧
        ∀ who', Actor.call id ≠ who' →
          ({ v with calls := v.calls.erase id } : World).intent? who' = w.intent? who' := by
      intro v hcalls htasks
      refine ⟨by simp [intent?], fun who' hne => ?_⟩
      cases who' with
      | task j => simp [intent?, htasks]
      | call j =>
        have hj : id ≠ j := fun hj => hne (hj ▸ rfl)
        simp [intent?, hcalls, hj]
    have hleft := abandon_cases w (.call id) stage
    have hcell := fun c => cell_of_left hleft c
    rcases hleft with heq | ⟨c, heq⟩
    · rw [heq] at hcell ⊢
      obtain ⟨hnone, hi⟩ := others w rfl rfl
      exact .dropped rfl ⟨rfl, rfl, rfl, rfl, fun _ => rfl, fun h => h,
        fun _ t ht => ⟨t, ht, .refl _⟩⟩ hnone hi hcell
    · rw [heq] at hcell ⊢
      obtain ⟨hnone, hi⟩ := others (w.updateCell c (Cell.leave (.call id))) rfl rfl
      exact .dropped rfl ⟨rfl, rfl, rfl, rfl, members_updateCell w c _, fun h => h,
        fun _ t ht => ⟨t, ht, .refl _⟩⟩ hnone hi hcell

theorem clear_happens (w : World) (who : Actor) : Happens setup w (.clear who) (w.clear who) := by
  cases who with
  | call id =>
    refine .rested ⟨rfl, rfl, rfl, rfl, fun _ => rfl, fun h => h,
      fun _ t ht => ⟨t, ht, .refl _⟩⟩ (fun who => ?_) fun _ => rfl
    cases who with
    | task j => rfl
    | call j =>
      simp only [intent?, clear, Table.get?_modify]
      split
      · cases w.calls.get? j with
        | none => rfl
        | some stage => exact Stage.intent?_clear stage
      · rfl
  | task id =>
    have moved : ∀ (j : Nat), ((w.clear (.task id)).tasks[j]?).map Task.position =
        (w.tasks[j]?).map fun t => if id = j then t.position.clear else t.position := by
      intro j
      simp only [clear, updateTask, List.getElem?_modify]
      by_cases hj : id = j <;> simp [hj, Function.comp_def]
    refine .rested ⟨rfl, rfl, rfl, rfl, fun _ => rfl,
      fun h => Leads.of_updateTask h (fun _ => rfl) fun _ => rfl, fun j t' ht' => ?_⟩
      (fun who => ?_) fun _ => rfl
    · have hmoved := moved j
      rw [ht'] at hmoved
      obtain ⟨t, ht, hp⟩ := Option.map_eq_some_iff.1 hmoved.symm
      refine ⟨t, ht, ?_⟩
      rw [← hp]
      split
      · exact .clear _
      · exact .refl _
    · cases who with
      | call j => rfl
      | task j =>
        have hbind : ∀ v : World, v.intent? (.task j) =
            ((v.tasks[j]?).map Task.position).bind Position.intent? := fun v => by
          cases hv : v.tasks[j]? <;> simp [intent?, hv]
        rw [hbind, hbind, moved]
        cases w.tasks[j]? with
        | none => rfl
        | some t =>
          by_cases hj : id = j
          · simp [hj, Position.intent?_clear]
          · simp [hj]

/-- A cancelled task gives up the call of the listener that it has called, and then its stream. -/
theorem stopTask_leaves (ht : w.tasks[id]? = some t) :
    Leaves id (t.position.stage?.elim w (w.abandon (.task id))) (w.stopTask id t) := by
  have stopped : ∀ {v : World}, v.tasks = w.tasks →
      Leaves id v ((v.closeStream t).finishTask id t .stopped) := by
    intro v htasks
    have hclose : Apart id v (v.closeStream t) := .closeStream v t
    have hat : At id (v.closeStream t) t.position := by
      refine ⟨t, ?_, rfl⟩
      unfold closeStream
      split
      · exact htasks ▸ ht
      · exact htasks ▸ ht
    exact hclose.leaves (finishTask_leaves hat .stopped)
  have hstop : w.stopTask id t = ((t.position.stage?.elim w (w.abandon (.task id))).closeStream
      t).finishTask id t .stopped := by
    obtain ⟨cluster, generation, backoff, cancelled, notified, failures, position⟩ := t
    cases position with
    | calling s pass l callback rest => cases callback <;> rfl
    | _ => rfl
  rw [hstop]
  cases t.position.stage? with
  | none => exact stopped rfl
  | some stage => exact stopped (abandon_aside w _ stage).tasks

theorem move_happens (hs : Supervised w) (hp : w.Proper) (hm : w.move setup m = some w') :
    Happens setup w m w' := by
  have idle : ∀ {m : Move} {v : World}, v.store = w.store → v.listeners = w.listeners →
      v.slots = w.slots → v.counters = w.counters → v.trace = w.trace → v.caches = w.caches →
      v.tasks = w.tasks → v.calls = w.calls → Happens setup w m v := by
    intro m v hstore hlisteners hslots hcounters htrace hcaches htasks hcalls
    exact .rested ⟨hstore, hlisteners, hcounters, htrace, fun c => by rw [hcaches],
      fun h => h.same htasks hslots, fun _ t ht => ⟨t, htasks ▸ ht, .refl _⟩⟩
      (intent?_congr htasks hcalls) fun c => by rw [cell, hcaches, cell]
  cases m with
  | step who =>
    cases who with
    | call id =>
      have hm : w.stepCall setup id = some w' := hm
      unfold stepCall at hm
      split at hm
      · cases hm
      · next stage hstage =>
        obtain ⟨⟨v, p⟩, hr, rfl⟩ := Option.map_eq_some_iff.1 hm
        have hd : Deed setup (w.Loose (.step (.call id))) (.call id) { w with trace := w.trace }
            (w.intent? (.call id)) v p.intent? := by
          have hintent : w.intent? (.call id) = stage.intent? := by simp [intent?, hstage]
          rw [hintent]
          exact resume_deed hr
        exact .acted (.same rfl) hd (settleCall_settles v id p)
    | task id =>
      obtain ⟨t, ht, hm⟩ := Option.bind_eq_some_iff.1 hm
      unfold stepTask at hm
      split at hm
      · cases hm
      · next he =>
        have he : t.isEnded = false := by simpa using he
        split at hm
        · next hcan =>
          cases hm
          refine .stopped (by simp [dropped?, ht, hcan, he]) ?_ (stopTask_leaves ht)
            fun j hj => .finishes hj (stopTask_finishes w)
          cases t.position.stage? with
          | none => exact .inl rfl
          | some stage => exact abandon_cases w (.task id) stage
        · next hcan =>
          have hcan : t.cancelled = false := by simpa using hcan
          have hstep := advanceTask_cases hm
          rcases (hstep.strode ht (hp id t ht)).deed ht with h | ⟨trace, v, after, hq, d, h⟩
          · exact .strode rfl ht (hs.leads_of_handle (hs.held (charge?_of_task ht) he hcan)) h
              fun j hj => .turn hj (hstep.turn he)
          · exact .acted hq (d.mono (Exists.imp fun a ha => ⟨by simp [action?, ht, ha.1], ha.2⟩)) h
  | ask id a =>
    simp only [move] at hm
    split at hm
    · cases hm
    · next hnew =>
      cases hm
      have hnone : w.intent? (.call id) = none := by
        have hnone : w.calls.get? id = none := by simpa [Table.contains] using hnew
        simp [intent?, hnone]
      have hloose : a.isOutside = true → w.Loose (.ask id a) := fun ha => ⟨a, rfl, ha⟩
      have hd := (@begin_deed setup (w.note (.asked id a)) (.call id) a).mono hloose
      exact .acted (.note w rfl) (by rw [hnone]; exact hd) (settleCall_settles _ id _)
  | drop id =>
    cases hm
    exact dropCall_happens w id
  | clear who =>
    cases hm
    exact clear_happens w who
  | free method =>
    cases hm
    exact idle rfl rfl rfl rfl rfl rfl rfl rfl
  | elapse n =>
    cases hm
    exact idle rfl rfl rfl rfl rfl rfl rfl rfl

/-! ## What is left in mind -/

theorem intent?_eq (w : World) (who : Actor) :
    w.intent? who = ((w.stage? who).map Stage.clear).bind Stage.intent? := by
  cases who with
  | call id => cases h : w.calls.get? id <;> simp [intent?, stage?, h, Stage.intent?_clear]
  | task id => cases h : w.tasks[id]? <;> simp [intent?, stage?, h, Position.intent?_eq]

/-- What an actor has in mind does not depend on how far its command has come. -/
theorem intent?_of_stage? {who : Actor}
    (h : (w'.stage? who).map Stage.clear = (w.stage? who).map Stage.clear) :
    w'.intent? who = w.intent? who := by
  rw [intent?_eq, intent?_eq, h]

theorem Apart.stages {p : Position} (h : Apart id w w') (ht : w.tasks[id]? = some t)
    (hp : At id w' p) (hi : p.stage?.map Stage.clear = t.position.stage?.map Stage.clear)
    (who : Actor) : (w'.stage? who).map Stage.clear = (w.stage? who).map Stage.clear := by
  cases who with
  | call j => simp only [stage?, h.calls]
  | task j =>
    by_cases hj : id = j
    · subst hj
      obtain ⟨t', ht', rfl⟩ := hp
      simpa [stage?, ht', ht] using hi
    · simp only [stage?, h.others j hj]

theorem Leaves.stages (h : Leaves id w w') : w'.stage? (.task id) = none ∧
    ∀ who, .task id ≠ who → w'.stage? who = w.stage? who := by
  obtain ⟨hapart, t', ht', hstream⟩ := h
  refine ⟨by simp [stage?, ht', Position.stage?_of_stream? hstream], fun who hne => ?_⟩
  cases who with
  | call j => simp only [stage?, hapart.calls]
  | task j => simp only [stage?, hapart.others j fun hj => hne (hj ▸ rfl)]

theorem Leaves.intents (h : Leaves id w w') : w'.intent? (.task id) = none ∧
    ∀ who, .task id ≠ who → w'.intent? who = w.intent? who := by
  obtain ⟨hmine, hothers⟩ := h.stages
  exact ⟨by rw [intent?_eq, hmine]; rfl,
    fun who hne => intent?_of_stage? (congrArg _ (hothers who hne))⟩

/-- A task that goes on by itself leaves all calls where they are. -/
theorem Stride.stages (h : Stride setup id t w w') (ht : w.tasks[id]? = some t) (who : Actor) :
    (w'.stage? who).map Stage.clear = (w.stage? who).map Stage.clear := by
  have moved : ∀ {v : World} {p : Position}, Apart id v w' → v.tasks = w.tasks →
      v.calls = w.calls → At id w' p → p.stage?.map Stage.clear = t.position.stage?.map Stage.clear →
      (w'.stage? who).map Stage.clear = (w.stage? who).map Stage.clear := fun ha hvt hvc hp hi =>
    (ha.stages (hvt ▸ ht) hp hi who).trans (congrArg _ (stage?_congr hvt hvc who))
  cases h with
  | away h hi =>
    obtain ⟨hmine, hothers⟩ := h.stages
    by_cases hwho : .task id = who
    · subst hwho
      rw [hmine]
      simp [stage?, ht, hi]
    · rw [hothers who hwho]
  | alike h _ hp _ hi => exact moved h rfl rfl hp hi
  | opened h hl hp => exact moved h rfl rfl hp (by rw [hl]; rfl)
  | woken h _ hl hp => exact moved h rfl rfl hp (by rw [hl]; rfl)
  | received h hl _ _ hp => exact moved h rfl rfl hp (by rw [hl]; rfl)
  | read h _ hl hp => exact moved h rfl rfl hp (by rw [hl]; rfl)
  | replaced h _ hl hp => exact moved h rfl rfl hp (by rw [hl]; rfl)
  | applied h _ hl _ _ hp => exact moved h rfl rfl hp (by rw [hl]; rfl)

/-- A task that goes on by itself has nothing else in mind than before. -/
theorem Stride.intents (h : Stride setup id t w w') (ht : w.tasks[id]? = some t) (who : Actor) :
    w'.intent? who = w.intent? who := intent?_of_stage? (h.stages ht who)

/-- Calls stay where they are until the outcome of a deed is recorded. -/
theorem Edits.stages (e : Edits setup w v) (hcalls : v.calls = w.calls) (who : Actor) :
    v.stage? who = w.stage? who := by
  cases who with
  | call id => simp only [stage?, hcalls]
  | task id =>
    have e : Elsewhere id w v := .edits e
    cases ht : w.tasks[id]? with
    | some t =>
      obtain ⟨t', ht', -, hp, -⟩ := e.task t ht
      simp [stage?, ht, ht', hp]
    | none =>
      cases ht' : v.tasks[id]? with
      | none => simp [stage?, ht, ht']
      | some t' => simp [stage?, ht, ht', e.fresh ht t' ht', Position.stage?]

/-- Nobody has anything else in mind until the outcome of a deed is recorded. -/
theorem Edits.intents (e : Edits setup w v) (hcalls : v.calls = w.calls) (who : Actor) :
    v.intent? who = w.intent? who := intent?_of_stage? (congrArg _ (e.stages hcalls who))

section
variable {loose : Prop} {who : Actor} {after : Option Intent}

theorem Deed.calls {before : Option Intent} (d : Deed setup loose who w before v after)
    (hsup : Supervised w) : v.calls = w.calls := by
  cases d with
  | light h => exact h.calls
  | wrote h => exact h.calls
  | announced h => exact h.calls
  | @refilled load fields =>
    obtain ⟨u, -, -, hcalls, -, -, ⟨f, -, -, heq⟩ | ⟨-, -, -, -, heq⟩⟩ :=
      takeSnapshot_cases setup hsup load fields
    · rw [heq]
      exact hcalls
    · rw [heq]
      rcases awaitStart_cases u load with heq | ⟨seen, heq⟩ <;> rw [heq]
      · exact hcalls
      · exact hcalls
  | @started load =>
    rcases awaitStart_cases w load with heq | ⟨seen, heq⟩ <;> rw [heq]
    rfl

end

/-! ## What is kept -/

theorem Kept.fresh (store : Memory) : Kept { store } where
  loaded c hc := by simp [cell, Caches.entry] at hc
  start who c hc := by cases who <;> simp [intent?] at hc
  owner who x c hc := by cases who <;> simp [intent?] at hc
  nodup c := by simp [Caches.entry]
  plain who e h := by cases who <;> simp [intent?] at h

theorem Proper.fresh (store : Memory) : Proper { store } := fun id t ht => by simp at ht

theorem Idles.heeds (h : Idles w w') (hc : ∀ c, w'.cell c = .loaded → w.cell c = .loaded) :
    Heeds w w' :=
  ⟨.same h.listeners h.leads, fun c => .inl (h.members c), fun c hn => by rwa [h.members c],
    fun c hl => .inl (hc c hl)⟩

theorem Apart.served (h : Apart id w w') {c : String} : w'.Served c ↔ w.Served c := by
  rw [Served, h.listeners, Served]

theorem Apart.owed (h : Apart id w w') {c : String} (ho : w.Owed c) : w'.Owed c := by
  rwa [Owed, h.listeners]

theorem served_of_left {who : Actor} (hv : v = w ∨ ∃ c, v = w.updateCell c (Cell.leave who))
    {c : String} : v.Served c ↔ w.Served c := by
  rcases hv with rfl | ⟨k, rfl⟩ <;> exact Iff.rfl

/-- What a move leaves of the served clusters, the loaded ones and the members. -/
theorem Happens.heeds (h : Happens setup w m w') (hs : Supervised w) (hk : Kept w) :
    (∀ c, w.Served c → w'.Served c) ∧
    (∀ c, w'.cell c = .loaded → w.cell c = .loaded ∨ w'.Served c) ∧
    ∀ c, (w.caches.entry c).members.Nodup → (w'.caches.entry c).members.Nodup := by
  cases h with
  | @acted who trace v after hq d h =>
    have hs : Supervised { w with trace } := hs.rests (.quiet rfl rfl rfl rfl rfl)
    have hk : Kept { w with trace } := hk.same rfl rfl fun _ => rfl
    obtain ⟨hheeds, -⟩ := Deed.heeds (w := { w with trace }) d hs hk
    have hserved : ∀ c, w'.Served c ↔ v.Served c := fun c => by rw [Served, h.listeners, Served]
    refine ⟨fun c hc => (hserved c).2 (hheeds.served hc), fun c hc => ?_, fun c hc => ?_⟩
    · rw [cell, h.caches] at hc
      exact (hheeds.loaded c hc).imp_right (hserved c).2
    · rw [h.caches]
      exact hheeds.nodup c hc
  | rested h _ hc =>
    have hheeds := h.heeds fun c hl => hc c ▸ hl
    exact ⟨fun c => hheeds.served, hheeds.loaded, hheeds.nodup⟩
  | dropped _ h _ _ hc =>
    have hheeds := h.heeds fun c hl => by
      rcases hc c with hc | hc
      · exact hc ▸ hl
      · exact Cell.leave_eq_loaded (hc ▸ hl)
    exact ⟨fun c => hheeds.served, hheeds.loaded, hheeds.nodup⟩
  | stopped _ hv h =>
    refine ⟨fun c hc => h.1.served.2 ((served_of_left hv).2 hc), fun c hc => .inl ?_, fun c hc => ?_⟩
    · rw [h.1.cell] at hc
      rcases cell_of_left hv c with heq | heq
      · exact heq ▸ hc
      · exact Cell.leave_eq_loaded (heq ▸ hc)
    · rw [h.1.caches]
      rcases hv with rfl | ⟨k, rfl⟩
      · exact hc
      · rwa [members_updateCell]
  | strode _ _ _ h =>
    exact ⟨fun c => (h.served c).2, fun c hc => .inl (h.cell c ▸ hc), fun c => h.nodup⟩

/-- Nobody has anything new in mind but for an actor that did a deed. -/
theorem Happens.intents (h : Happens setup w m w') (hs : Supervised w) :
    (∀ who x, w'.intent? who = some x → w.intent? who = some x) ∨
    ∃ who trace v after, Deed setup (w.Loose m) who { w with trace } (w.intent? who) v after ∧
      Settles who v w' after ∧ ∀ who', who ≠ who' → w'.intent? who' = w.intent? who' := by
  cases h with
  | @acted who trace v after hq d h =>
    have hs : Supervised { w with trace } := hs.rests (.quiet rfl rfl rfl rfl rfl)
    refine .inr ⟨who, trace, v, after, d, h, fun who' hne => (h.others who' hne).trans ?_⟩
    exact d.edits.intents (Deed.calls (w := { w with trace }) d hs) who'
  | rested _ hi => exact .inl fun who x hx => hi who ▸ hx
  | @dropped who _ _ hnone hi =>
    refine .inl fun who' x hx => ?_
    by_cases hwho : who = who'
    · subst hwho
      rw [hnone] at hx
      cases hx
    · exact hi who' hwho ▸ hx
  | @stopped id v _ hv h =>
    obtain ⟨hnone, hi⟩ := h.intents
    refine .inl fun who' x hx => ?_
    by_cases hwho : .task id = who'
    · subst hwho
      rw [hnone] at hx
      cases hx
    · rw [hi who' hwho] at hx
      rcases hv with rfl | ⟨c, rfl⟩
      · exact hx
      · exact hx
  | strode _ ht _ h => exact .inl fun who x hx => h.intents ht who ▸ hx

/-- Whoever loads a cluster after a move owns its cell. -/
theorem Happens.owner (h : Happens setup w m w') (hs : Supervised w) (hk : Kept w) {who : Actor}
    {x : Intent} {c : String} (hx : w'.intent? who = some x) (hl : x.load? = some c) :
    (w'.cell c).owner? = some who := by
  -- One who does not give up stays the owner when others do.
  have stays : ∀ {who' : Actor} {cell' : Cell Actor}, who ≠ who' → w.intent? who = some x →
      (cell' = w.cell c ∨ cell' = (w.cell c).leave who') → cell'.owner? = some who := by
    intro who' cell' hne hx hcell
    have howner := hk.owner who x c hx hl
    rcases hcell with rfl | rfl
    · exact howner
    · exact Cell.owner?_leave howner hne
  cases h with
  | @acted who' trace v after hq d h =>
    have hs : Supervised { w with trace } := hs.rests (.quiet rfl rfl rfl rfl rfl)
    have hk' : Kept { w with trace } := hk.same rfl rfl fun _ => rfl
    obtain ⟨hmine, hothers⟩ := Deed.owner (w := { w with trace }) d hs hk' (c := c)
    rw [cell, h.caches]
    by_cases hwho : who' = who
    · subst hwho
      exact hmine x (h.mine ▸ hx) hl
    · refine hothers who hwho (hk.owner who x c ?_ hl)
      rw [h.others who hwho, d.edits.intents (Deed.calls (w := { w with trace }) d hs)] at hx
      exact hx
  | rested _ hi hc =>
    rw [hc]
    exact hk.owner who x c (hi who ▸ hx) hl
  | @dropped who' _ _ hnone hi hc =>
    have hwho : who' ≠ who := by
      rintro rfl
      rw [hnone] at hx
      cases hx
    exact stays hwho.symm (hi who hwho ▸ hx) (hc c)
  | @stopped id v _ hv h =>
    obtain ⟨hnone, hi⟩ := h.intents
    have hwho : .task id ≠ who := by
      rintro rfl
      rw [hnone] at hx
      cases hx
    rw [hi who hwho] at hx
    rw [h.1.cell]
    refine stays hwho.symm ?_ (cell_of_left hv c)
    rcases hv with rfl | ⟨k, rfl⟩
    · exact hx
    · exact hx
  | strode _ ht _ h =>
    rw [h.cell]
    exact hk.owner who x c (h.intents ht who ▸ hx) hl

/-- Addresses that an actor writes are plain. -/
theorem Deed.plain {loose : Prop} {who : Actor} {before after : Option Intent} {e : Event}
    (d : Deed setup loose who w before v after) (hs : Supervised w)
    (hb : before = some (.write e) ∨ before = some (.announce e) → e.address.isPlain = true)
    (ha : after = some (.write e) ∨ after = some (.announce e)) : e.address.isPlain = true := by
  cases d with
  | light _ _ _ _ hres =>
    rcases ha with ha | ha
    · rcases hres _ ha with hx | hx
      · exact hb (.inl hx)
      · exact hx
    · rcases hres _ ha with hx | hx
      · exact hb (.inr hx)
      · cases hx
  | wrote _ hw =>
    rcases ha with ha | ha
    · cases ha
    · cases ha
      exact hb (.inl hw)
  | announced => rcases ha with ha | ha <;> cases ha
  | refilled => rcases ha with ha | ha <;> cases (takeSnapshot_intent? hs ha).1
  | started => rcases ha with ha | ha <;> cases (awaitStart_intent? ha).1

theorem Kept.happens (hk : Kept w) (hs : Supervised w) (h : Happens setup w m w') : Kept w' := by
  obtain ⟨hserved, hloaded, hnodup⟩ := h.heeds hs hk
  refine ⟨fun c hc => ?_, fun who' c hx => ?_, fun who x c hx hl => h.owner hs hk hx hl,
    fun c => hnodup c (hk.nodup c), fun who' e hx => ?_⟩
  · rcases hloaded c hc with hc | hc
    · exact hserved c (hk.loaded c hc)
    · exact hc
  · rcases h.intents hs with hi | ⟨who, trace, v, after, d, hset, hi⟩
    · exact hserved c (hk.start who' c (hi who' _ hx))
    · by_cases hwho : who = who'
      · subst hwho
        have hs : Supervised { w with trace } := hs.rests (.quiet rfl rfl rfl rfl rfl)
        have hk : Kept { w with trace } := hk.same rfl rfl fun _ => rfl
        rw [Served, hset.listeners]
        exact (Deed.heeds (w := { w with trace }) d hs hk).2 c (hset.mine ▸ hx)
      · exact hserved c (hk.start who' c (hi who' hwho ▸ hx))
  · rcases h.intents hs with hi | ⟨who, trace, v, after, d, hset, hi⟩
    · exact hk.plain who' e (hx.imp (hi who' _) (hi who' _))
    · by_cases hwho : who = who'
      · subst hwho
        have hs : Supervised { w with trace } := hs.rests (.quiet rfl rfl rfl rfl rfl)
        rw [hset.mine] at hx
        exact d.plain hs (hk.plain who e) hx
      · exact hk.plain who' e (hi who' hwho ▸ hx)

/-- Tasks go on standing properly. -/
theorem Proper.happens (hp : w.Proper) (h : Happens setup w m w') : w'.Proper := by
  have alike : ∀ {v : World}, v.Proper → (∀ (id : Nat) (t' : Task), w'.tasks[id]? = some t' →
      ∃ t : Task, v.tasks[id]? = some t ∧ t.position.Alike t'.position) → w'.Proper := by
    intro v hv halike id t' ht'
    obtain ⟨t, ht, ha⟩ := halike id t' ht'
    exact ha.proper (hv id t ht)
  have others : ∀ {id j : Nat} {t' : Task}, id ≠ j → Elsewhere j w w' →
      w'.tasks[j]? = some t' → t'.position.IsProper := by
    intro id j t' hj he ht'
    cases ht : w.tasks[j]? with
    | none => exact he.fresh ht t' ht' ▸ trivial
    | some t =>
      obtain ⟨u, hu, -, hpos, -⟩ := he.task t ht
      cases hu.symm.trans ht'
      exact hpos ▸ hp j t ht
  cases h with
  | @acted who trace v after hq d h =>
    refine alike (fun id t' ht' => ?_) h.tasks
    have he : Elsewhere id { w with trace } v := .edits d.edits
    cases ht : w.tasks[id]? with
    | none => exact he.fresh ht t' ht' ▸ trivial
    | some t =>
      obtain ⟨u, hu, -, hpos, -⟩ := he.task t ht
      cases hu.symm.trans ht'
      exact hpos ▸ hp id t ht
  | rested h => exact alike hp h.tasks
  | dropped _ h => exact alike hp h.tasks
  | @stopped id v _ _ h he =>
    intro j t' ht'
    by_cases hj : id = j
    · subst hj
      obtain ⟨-, u, hu, hstream⟩ := h
      cases hu.symm.trans ht'
      exact Position.isProper_of_stream? hstream
    · exact others hj (he j hj) ht'
  | @strode id t hm ht _ h he =>
    intro j t' ht'
    by_cases hj : id = j
    · subst hj
      obtain ⟨u, hu, hproper⟩ := h.proper (hp id t ht)
      cases hu.symm.trans ht'
      exact hproper
    · exact others hj (he j hj) ht'

theorem Hopeless.happens {c : String} (hh : w.Hopeless c) (hs : Supervised w)
    (hm : w.move setup m = some w') (h : Happens setup w m w') : w'.Hopeless c := by
  refine ⟨closed_of_move hh.closed hm, fun hc => ?_, fun who' hx => ?_⟩
  · cases h with
    | @acted who trace v after hq d h =>
      have hs : Supervised { w with trace } := hs.rests (.quiet rfl rfl rfl rfl rfl)
      have hh : Hopeless { w with trace } c := ⟨hh.closed, hh.cell, hh.start⟩
      rw [World.cell, h.caches] at hc
      exact (Deed.hopeless (w := { w with trace }) d hs hh).1 hc
    | rested _ _ hcell => exact hh.cell (hcell c ▸ hc)
    | dropped _ _ _ _ hcell =>
      rcases hcell c with heq | heq
      · exact hh.cell (heq ▸ hc)
      · exact hh.cell (Cell.leave_eq_loaded (heq ▸ hc))
    | stopped _ hv h =>
      rw [h.1.cell] at hc
      rcases cell_of_left hv c with heq | heq
      · exact hh.cell (heq ▸ hc)
      · exact hh.cell (Cell.leave_eq_loaded (heq ▸ hc))
    | strode _ _ _ h => exact hh.cell (h.cell c ▸ hc)
  · rcases h.intents hs with hi | ⟨who, trace, v, after, d, hset, hi⟩
    · exact hh.start who' (hi who' _ hx)
    · by_cases hwho : who = who'
      · subst hwho
        have hs : Supervised { w with trace } := hs.rests (.quiet rfl rfl rfl rfl rfl)
        have hh : Hopeless { w with trace } c := ⟨hh.closed, hh.cell, hh.start⟩
        exact (Deed.hopeless (w := { w with trace }) d hs hh).2 (hset.mine ▸ hx)
      · exact hh.start who' (hi who' hwho ▸ hx)

/-! ## What is told of messages -/

/-- No deed counts what only tasks count. -/
theorem Deed.events {loose : Prop} {who : Actor} {before after : Option Intent}
    (d : Deed setup loose who w before v after) (hs : Supervised w) :
    v.counters.events = w.counters.events := by
  have awaited : ∀ (u : World) (load : Load),
      (u.awaitStart load).1.counters.events = u.counters.events := fun u load => by
    rcases awaitStart_cases u load with heq | ⟨seen, heq⟩ <;> rw [heq]
    rfl
  cases d with
  | light h => exact h.events
  | wrote h => exact h.events
  | announced h => exact h.events
  | @refilled load fields =>
    obtain ⟨u, -, -, -, -, hevents, ⟨f, -, -, heq⟩ | ⟨-, -, -, -, heq⟩⟩ :=
      takeSnapshot_cases setup hs load fields
    · rw [heq]
      exact hevents
    · rw [heq, awaited]
      exact hevents
  | started => exact awaited _ _

/-- A deed tells at most of an updater that was attached. -/
theorem Deed.told {loose : Prop} {who : Actor} {before after : Option Intent}
    (d : Deed setup loose who w before v after) (hs : Supervised w) :
    ∃ told, v.trace.filter Mark.tells = told ++ w.trace.filter Mark.tells ∧
      ∀ m ∈ told, m.owner? = none := by
  have silent : ∀ {v : World}, Silent w v → ∃ told,
      v.trace.filter Mark.tells = told ++ w.trace.filter Mark.tells ∧
      ∀ m ∈ told, m.owner? = none := fun h => ⟨[], h, by simp⟩
  cases d with
  | light h => exact silent h.silent
  | wrote h => exact silent h.silent
  | announced h => exact silent h.silent
  | @refilled load fields =>
    obtain ⟨u, -, -, -, -, -, ⟨f, -, hsilent, heq⟩ | ⟨-, -, -, ⟨l, joined, -, hmark⟩, heq⟩⟩ :=
      takeSnapshot_cases setup hs load fields
    · rw [heq]
      exact silent hsilent
    · have hafter : Silent u (u.awaitStart load).1 := .aside (awaitStart_aside u load)
      rw [heq]
      exact ⟨[.attached load.cluster l joined], Eq.trans hafter hmark, by simp [Mark.owner?]⟩
  | @started load => exact silent (.aside (awaitStart_aside w load))

/-- A stride tells of nothing but what its own task does. -/
theorem Stride.told (h : Stride setup id t w w') :
    ∃ told, w'.trace.filter Mark.tells = told ++ w.trace.filter Mark.tells ∧
      ∀ m ∈ told, m.owner? = some id := by
  have silent : ∀ {v : World}, Apart id v w' → v.trace = w.trace → ∃ told,
      w'.trace.filter Mark.tells = told ++ w.trace.filter Mark.tells ∧
      ∀ m ∈ told, m.owner? = some id := fun h hv => ⟨[], hv ▸ h.silent, by simp⟩
  have noted : ∀ {v : World} {m : Mark}, Apart id (v.note m) w' → v.trace = w.trace →
      m.tells = true → m.owner? = some id → ∃ told,
      w'.trace.filter Mark.tells = told ++ w.trace.filter Mark.tells ∧
      ∀ m ∈ told, m.owner? = some id := by
    intro v m h hv hm howner
    have hsilent : w'.trace.filter Mark.tells = (v.note m).trace.filter Mark.tells := h.silent
    refine ⟨[m], ?_, by simpa using howner⟩
    rw [hsilent, note, hv]
    simp [hm]
  cases h with
  | away h => exact silent h.1 rfl
  | alike h => exact silent h rfl
  | opened h => exact silent h rfl
  | woken h => exact silent h rfl
  | received h => exact noted h rfl rfl rfl
  | read h => exact silent h rfl
  | replaced h => exact silent h rfl
  | applied h _ _ hu => exact noted h rfl hu rfl

/-! ## What a task finds -/

/-- Nothing is told of messages of a cluster. -/
def Hushed (c : String) (w w' : World) : Prop :=
  ∃ told, w'.trace.filter Mark.tells = told ++ w.trace.filter Mark.tells ∧
    ∀ m ∈ told, m.owner? = none ∨
      ∃ j t, m.owner? = some j ∧ w.tasks[j]? = some t ∧ t.cluster ≠ c

/-- The newest task of a cluster goes on as before, as far as its updaters can tell. -/
structure Steady (c : String) (id : Nat) (t' : Task) (w w' : World) : Prop where
  leads : w.Leads c id
  task : ∃ t : Task, w.tasks[id]? = some t ∧ t.position.Alike t'.position
  members : (w'.caches.entry c).members = (w.caches.entry c).members
  served : w.Served c
  owed : w.Owed c → w'.Owed c
  store : w.store.Calm w'.store ∨ Elsewhere id w w'
  hushed : Hushed c w w'

theorem Silent.hushed (h : Silent w w') (c : String) : Hushed c w w' := ⟨[], h, by simp⟩

theorem not_streamless {t' : Task} {s : Nat} (ht : w.tasks[id]? = some t')
    (hs : t'.position.stream? = some s) : ¬ w.Streamless id := by
  rintro ⟨u, hu, hnone⟩
  cases ht.symm.trans hu
  rw [hnone] at hs
  cases hs

/-- After a move, a task that has a stream goes on as before, or it has made a stride. -/
theorem Happens.stands (h : Happens setup w m w') {t' : Task} {s : Nat}
    (ht' : w'.tasks[id]? = some t') (hstream : t'.position.stream? = some s) :
    (∃ t : Task, w.tasks[id]? = some t ∧ t.position.Alike t'.position ∧
      (w.store.Calm w'.store ∨ Elsewhere id w w')) ∨
    ∃ t : Task, w.tasks[id]? = some t ∧ Stride setup id t w w' := by
  have elsewhere : Elsewhere id w w' → ∃ t : Task, w.tasks[id]? = some t ∧
      t.position.Alike t'.position ∧ (w.store.Calm w'.store ∨ Elsewhere id w w') := by
    intro he
    cases ht : w.tasks[id]? with
    | none =>
      rw [he.fresh ht t' ht'] at hstream
      cases hstream
    | some t =>
      obtain ⟨u, hu, -, hp, -⟩ := he.task t ht
      cases ht'.symm.trans hu
      exact ⟨t, rfl, hp ▸ .refl _, .inr he⟩
  have idle : Idles w w' → ∃ t : Task, w.tasks[id]? = some t ∧
      t.position.Alike t'.position ∧ (w.store.Calm w'.store ∨ Elsewhere id w w') := by
    intro h
    obtain ⟨t, ht, halike⟩ := h.tasks id t' ht'
    exact ⟨t, ht, halike, .inl (h.store ▸ .refl _)⟩
  cases h with
  | @acted who trace v after _ d h =>
    obtain ⟨u, hu, halike⟩ := h.tasks id t' ht'
    have he : Elsewhere id { w with trace } v := .edits d.edits
    cases ht : w.tasks[id]? with
    | none =>
      rw [halike.stream, he.fresh ht u hu] at hstream
      cases hstream
    | some t =>
      obtain ⟨u', hu', -, hp, -⟩ := he.task t ht
      cases hu.symm.trans hu'
      exact .inl ⟨t, rfl, hp ▸ halike, .inl (h.store ▸ d.edits.store)⟩
  | rested h => exact .inl (idle h)
  | dropped _ h => exact .inl (idle h)
  | @stopped id₀ v _ hv h he =>
    have hid : id₀ ≠ id := by
      rintro rfl
      exact not_streamless ht' hstream h.2
    exact .inl (elsewhere (he id hid))
  | @strode id₀ t₀ hm ht₀ _ h he =>
    by_cases hid : id₀ = id
    · subst hid
      exact .inr ⟨t₀, ht₀, h⟩
    · exact .inl (elsewhere (he id hid))

/-- After a move, the newest task of a served cluster, if it has a stream, finds an updater in its
queue, or it goes on as before, or it has made a stride; or the cluster is beyond hope. -/
theorem Happens.turn (h : Happens setup w m w') (hs : Supervised w) (hk : Kept w)
    (hmove : w.move setup m = some w') {c : String} {t' : Task} {s : Nat} (hl : w'.Leads c id)
    (hserved : w'.Served c) (ht' : w'.tasks[id]? = some t')
    (hstream : t'.position.stream? = some s) :
    w'.Owed c ∨ w'.Hopeless c ∨ Steady c id t' w w' ∨ ∃ t, m = .step (.task id) ∧
      w.tasks[id]? = some t ∧ t.cluster = c ∧ Stride setup id t w w' := by
  have idle : Idles w w' → Steady c id t' w w' := fun h =>
    ⟨h.leads hl, h.tasks id t' ht', h.members c, by rwa [Served, ← h.listeners],
      fun ho => by rwa [Owed, h.listeners], .inl (h.store ▸ .refl _), (Silent.same h.trace).hushed c⟩
  have happens := h
  cases h with
  | @acted who trace v after hq d h =>
    have hsup : Supervised { w with trace } := hs.rests (.quiet rfl rfl rfl rfl rfl)
    have hkept : Kept { w with trace } := hk.same rfl rfl fun _ => rfl
    obtain ⟨hheeds, -⟩ := Deed.heeds (w := { w with trace }) d hsup hkept
    obtain ⟨u, hu, halike⟩ := h.tasks id t' ht'
    have hnot : ¬ v.Streamless id := not_streamless hu (halike.stream ▸ hstream)
    have howed : v.Owed c → w'.Owed c := fun ho => by rwa [Owed, h.listeners]
    have hvl : v.Leads c id := h.leads hl
    have hvs : v.Served c := by rwa [Served, h.listeners] at hserved
    rcases hheeds.turn hvl hvs with hl | ho | ⟨hw, hws, hpending⟩
    · exact absurd hl hnot
    · exact .inl (howed ho)
    · rcases hheeds.members c with hmembers | hhope | hturn
      · have hlead := hw
        obtain ⟨t, -, ht, -⟩ := hlead
        obtain ⟨u', hu', -, hp, -⟩ := (@Elsewhere.edits setup id _ _ d.edits).task t ht
        cases hu.symm.trans hu'
        obtain ⟨told, htold, hnone⟩ := Deed.told (w := { w with trace }) d hsup
        refine .inr (.inr (.inl ⟨hw, ⟨t, ht, hp ▸ halike⟩, by rw [h.caches]; exact hmembers, hws,
          fun ho => howed (hpending ho), .inl (h.store ▸ d.edits.store), told,
          Eq.trans h.silent (htold.trans (congrArg _ hq)), fun m hm => .inl (hnone m hm)⟩))
      · have hhope : w.Hopeless c := ⟨hhope.closed, hhope.cell, hhope.start⟩
        exact .inr (.inl (hhope.happens hs hmove happens))
      · rcases hturn id hvl with hl | ho
        · exact absurd hl hnot
        · exact .inl (howed ho)
  | rested h => exact .inr (.inr (.inl (idle h)))
  | dropped _ h => exact .inr (.inr (.inl (idle h)))
  | @stopped id₀ v hd hv h he =>
    obtain ⟨ha, hnone⟩ := h
    have hid : id₀ ≠ id := by
      rintro rfl
      exact not_streamless ht' hstream hnone
    have left : ∀ P : World → Prop, (∀ k f, P (w.updateCell k f) ↔ P w) → (P v ↔ P w) := by
      intro P hP
      rcases hv with rfl | ⟨k, rfl⟩
      · exact Iff.rfl
      · exact hP k _
    have hvl : v.Leads c id := ha.leads hl
    refine .inr (.inr (.inl ⟨(left (·.Leads c id) fun _ _ => Iff.rfl).1 hvl, ⟨t', ?_, .refl _⟩, ?_,
      (left (·.Served c) fun _ _ => Iff.rfl).1 (ha.served.1 hserved), fun ho => ?_,
      .inr (he id hid), Silent.hushed ?_ c⟩))
    · rw [← (left (fun u => u.tasks[id]? = some t') fun _ _ => Iff.rfl)]
      rw [← ha.others id hid]
      exact ht'
    · rw [ha.caches]
      exact (left (fun u => (u.caches.entry c).members = (w.caches.entry c).members)
        fun k f => by simp [members_updateCell]).2 rfl
    · rw [Owed, ha.listeners]
      exact (left (·.Owed c) fun _ _ => Iff.rfl).2 ho
    · exact (left (fun u => Silent u w') fun _ _ => Iff.rfl).1 ha.silent
  | @strode id₀ t₀ hm ht₀ hl₀ h he =>
    have hw : w.Leads c id := h.leads hl
    by_cases hid : id₀ = id
    · subst hid
      obtain ⟨t, -, ht, hc, -⟩ := hw
      cases ht₀.symm.trans ht
      exact .inr (.inr (.inr ⟨t₀, hm, ht, hc, h⟩))
    · have hcluster : t₀.cluster ≠ c := by
        rintro rfl
        exact hid (hs.leads_unique hl₀ hw)
      have hlead := hw
      obtain ⟨t, -, ht, -⟩ := hlead
      obtain ⟨u, hu, -, hp, -⟩ := (he id hid).task t ht
      cases ht'.symm.trans hu
      obtain ⟨told, htold, howner⟩ := h.told
      refine .inr (.inr (.inl ⟨h.leads hl, ⟨t, ht, hp ▸ .refl _⟩, h.members hcluster,
        (h.served c).1 hserved, h.owed hcluster, .inr (he id hid), told, htold,
        fun m hm => .inr ⟨id₀, t₀, howner m hm, ht₀, hcluster⟩⟩))

end World

/-! ## Runs -/

namespace Fleet

variable {setups : Nat → Setup} {f : Fleet} {i : Nat} {w : World}

/-- What holds of the caches and tasks of every client. -/
theorem kept_of_reachable (hf : Reachable setups f) (hw : f.world? i = some w) :
    w.Kept ∧ w.Proper := by
  have h : w.Supervised ∧ w.Kept ∧ w.Proper := by
    refine hf.keeps (P := fun w => w.Supervised ∧ w.Kept ∧ w.Proper)
      (fun store => ⟨.start store, .fresh store, .fresh store⟩)
      (fun w store h => ?_) (fun k w w' m h hm => ?_) hw
    · obtain ⟨hs, hk, hp⟩ := h
      exact ⟨hs.rests (.quiet rfl rfl rfl rfl rfl),
        hk.same rfl rfl fun who => by cases who <;> rfl, hp⟩
    · obtain ⟨hs, hk, hp⟩ := h
      have hhappens := World.move_happens hs hp hm
      exact ⟨hs.move hm, hk.happens hs hhappens, hp.happens hhappens⟩
  exact h.2

end Fleet

end Muster
