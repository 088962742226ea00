import Muster.Proofs.Delivery
import Muster.Proofs.RegistrationEras

/-!
# Synchronised before called

A listener must be synchronised before it is called with a message, and again after it came back or
the task opened a new stream. The listeners that come while a task runs are queued for it, and it
alone takes the queue (`Attentive`); so all depends on the queue. A listener that is queued loses
its place when any of its registrations ends, and an audience is fixed before its queue is served;
the listeners called too early are exactly those that were `Missed`, for one of these reasons.
-/
namespace Muster

/-- No listener comes, no queue is taken and no listener called. -/
def Mark.isPlain : Mark → Bool
  | .attached _ _ _ | .took _ _ _ | .called _ _ _ => false
  | _ => true

theorem Mark.isPlain_of_isAside {m : Mark} (hm : m.isAside = true) : m.isPlain = true := by
  cases m <;> first | rfl | cases hm

theorem tended_of_unmarked {c : String} {id : Nat} {trace : List Mark}
    (h : ∀ m ∈ trace, m.owner? ≠ some id) : Tended c id trace := by
  induction trace with
  | nil => trivial
  | cons m past ih =>
    have hpast : ∀ n ∈ past, n.owner? ≠ some id := fun n hn => h n (List.mem_cons_of_mem _ hn)
    exact ⟨fun ⟨n, hn, ho⟩ => absurd ho (hpast n hn), ih hpast⟩

namespace World

/-- Listeners that come while a task is live join it, and only that task takes their queue. -/
structure Attentive (w : World) : Prop where
  /-- A mark of a task was made after the task was started. -/
  marked : ∀ {m id}, m ∈ w.trace → m.owner? = some id → (w.charge? id).isSome
  live : ∀ {id ch}, w.charge? id = some ch → ch.ended = false → ch.cancelled = false →
    Tended ch.cluster id w.trace
  calls : ∀ {id ch l h past}, w.charge? id = some ch → .called id l h :: past <:+ w.trace →
    Tended ch.cluster id past

/-- Tasks stay what they are, but some may have ended or been cancelled. -/
structure Wanes (w w' : World) : Prop where
  known : ∀ {id}, (w.charge? id).isSome → (w'.charge? id).isSome
  was : ∀ {id ch'}, w'.charge? id = some ch' → ∃ ch, w.charge? id = some ch ∧
    ch'.cluster = ch.cluster ∧ (ch'.ended = false → ch.ended = false) ∧
    (ch'.cancelled = false → ch.cancelled = false)

namespace Wanes

variable {w w' : World}

theorem of_charge (h : ∀ id, w'.charge? id = w.charge? id) : Wanes w w' :=
  ⟨fun {id} hs => by rwa [h id], fun {id ch'} hc => ⟨ch', (h id).symm.trans hc, rfl, fun h => h, fun h => h⟩⟩

theorem updateTask (w : World) (id : Nat) (f : Task → Task)
    (hf : ∀ t, w.tasks[id]? = some t → (f t).cluster = t.cluster ∧
      ((f t).isEnded = false → t.isEnded = false) ∧
      ((f t).cancelled = false → t.cancelled = false)) : Wanes w (w.updateTask id f) where
  known {j} hs := by
    rw [charge?_updateTask]
    split
    · next hj =>
      subst hj
      simpa [charge?] using hs
    · exact hs
  was {j ch'} hc := by
    rw [charge?_updateTask] at hc
    split at hc
    · next hj =>
      subst hj
      obtain ⟨t, ht, rfl⟩ := Option.map_eq_some_iff.1 hc
      exact ⟨t.charge, charge?_of_task ht, (hf t ht).1, (hf t ht).2.1, (hf t ht).2.2⟩
    · exact ⟨ch', hc, rfl, fun h => h, fun h => h⟩

theorem close (w : World) : Wanes w w.close.2 where
  known {id} hs := by
    obtain ⟨ch, hch⟩ := Option.isSome_iff_exists.1 hs
    obtain ⟨t, ht, -⟩ := Option.map_eq_some_iff.1 hch
    simp [charge?, World.close, cancelAll, ht]
  was {id ch'} hc := by
    simp only [charge?, World.close, cancelAll, List.getElem?_map, Option.map_map] at hc
    obtain ⟨t, ht, rfl⟩ := Option.map_eq_some_iff.1 hc
    exact ⟨t.charge, charge?_of_task ht, rfl, fun h => h, fun h => by cases h⟩

end Wanes

namespace Attentive

variable {setup : Setup} {w w' : World} {id : Nat} {t : Task} {m : Mark}

theorem start (store : Memory) : Attentive { store } :=
  ⟨fun hm => by simp at hm, fun hc => by simp [charge?] at hc, fun hc => by simp [charge?] at hc⟩

theorem wanes (h : Attentive w) (hw : Wanes w w') (ht : w'.trace = w.trace) : Attentive w' where
  marked hm ho := hw.known (h.marked (ht ▸ hm) ho)
  live hc he hcan := by
    obtain ⟨ch, hch, hcl, hend, hcancel⟩ := hw.was hc
    rw [hcl, ht]
    exact h.live hch (hend he) (hcancel hcan)
  calls hc hs := by
    obtain ⟨ch, hch, hcl, -⟩ := hw.was hc
    rw [hcl]
    exact h.calls hch (ht ▸ hs)

theorem rests (h : Attentive w) (hr : Rests w w') (ht : w'.trace = w.trace) : Attentive w' :=
  h.wanes (.of_charge hr.charge) ht

theorem note (h : Attentive w) (howner : ∀ id, m.owner? = some id → (w.charge? id).isSome)
    (hlive : ∀ {id ch}, w.charge? id = some ch → ch.ended = false → ch.cancelled = false →
      (∀ l joined, m = .attached ch.cluster l joined → joined = true) ∧
      ∀ i queue, m = .took i ch.cluster queue → i = id)
    (hcall : ∀ {id ch l h}, m = .called id l h → w.charge? id = some ch →
      Tended ch.cluster id w.trace) : Attentive (w.note m) where
  marked hm ho := by
    rcases List.mem_cons.1 hm with rfl | hm
    · exact howner _ ho
    · exact h.marked hm ho
  live hc he hcan := ⟨fun _ => hlive hc he hcan, h.live hc he hcan⟩
  calls hc hs := by
    rcases List.suffix_cons_iff.1 hs with heq | hs
    · rw [List.cons.injEq] at heq
      exact heq.2 ▸ hcall heq.1.symm hc
    · exact h.calls hc hs

theorem plain (h : Attentive w) (hm : m.isPlain = true)
    (howner : ∀ id, m.owner? = some id → (w.charge? id).isSome) : Attentive (w.note m) := by
  refine h.note howner (fun _ _ _ => ⟨?_, ?_⟩) ?_
  · rintro l joined rfl
    cases hm
  · rintro i queue rfl
    cases hm
  · rintro id ch l hook rfl
    cases hm

/-- A listener comes; if it does not join a task, there is no live one. -/
theorem attached (h : Attentive w) {c : String} {joined : Bool}
    (hgone : joined = false → ∀ {id ch}, w.charge? id = some ch → ch.cluster = c →
      ch.ended = false → ch.cancelled = true) (l : Listener) :
    Attentive (w.note (.attached c l joined)) := by
  refine h.note (fun _ ho => by cases ho) (fun {id ch} hch he hcan => ⟨?_, ?_⟩) ?_
  · intro l' joined' hm
    cases hm
    cases joined with
    | true => rfl
    | false =>
      rw [hgone rfl hch rfl he] at hcan
      cases hcan
  · intro i queue hm
    cases hm
  · intro id ch l' hook hm
    cases hm

/-- A task is started that has made no mark yet. -/
theorem appended (h : Attentive w) (t : Task) (htasks : w'.tasks = w.tasks ++ [t])
    (htrace : w'.trace = w.trace) : Attentive w' := by
  have hcharge : ∀ id, w'.charge? id = ({ w with tasks := w.tasks ++ [t] } : World).charge? id :=
    fun id => by simp [charge?, htasks]
  have hnew : w.charge? w.tasks.length = none := by simp [charge?]
  have hunmarked : ∀ m ∈ w.trace, m.owner? ≠ some w.tasks.length := fun m hm ho => by
    have hsome := h.marked hm ho
    simp [hnew] at hsome
  constructor
  case marked =>
    intro m id hm ho
    have hsome := h.marked (htrace ▸ hm) ho
    have hlt : id < w.tasks.length := by
      rw [charge?, Option.isSome_map] at hsome
      exact (List.getElem?_eq_some_iff.1 (Option.eq_some_of_isSome hsome)).1
    rw [hcharge]
    simpa [charge?, List.getElem?_append_left hlt] using hsome
  case live =>
    intro id ch hch he hcan
    rw [htrace]
    rcases Supervised.charge?_append ((hcharge id).symm.trans hch) with hch | ⟨rfl, -⟩
    · exact h.live hch he hcan
    · exact tended_of_unmarked hunmarked
  case calls =>
    intro id ch l hook past hch hs
    rw [htrace] at hs
    rcases Supervised.charge?_append ((hcharge id).symm.trans hch) with hch | ⟨rfl, -⟩
    · exact h.calls hch hs
    · exact absurd rfl (hunmarked _ (hs.subset List.mem_cons_self))

theorem aside (h : Attentive w) (ha : Aside w w') : Attentive w' := by
  obtain ⟨ms, hms, ht⟩ := ha.trace
  have marked : ∀ ms : List Mark, (∀ m ∈ ms, m.isAside = true) →
      Attentive { w with trace := ms ++ w.trace } := by
    intro ms
    induction ms with
    | nil => exact fun _ => h
    | cons m rest ih =>
      intro hms
      have hm := hms m (by simp)
      have hrest := ih fun m hm => hms m (by simp [hm])
      refine hrest.plain (Mark.isPlain_of_isAside hm) fun id ho => ?_
      rw [Mark.owner?_of_isAside hm] at ho
      cases ho
  exact (marked ms hms).wanes (.of_charge fun id => by simp [charge?, ha.tasks]) ht

theorem attach (h : Attentive w) (hsup : Supervised w) (c : String) (l : Listener) :
    Attentive (w.attach setup c l).2 := by
  unfold World.attach
  split
  · exact h
  · rcases hsup.joinable?_cases c with ⟨id, hj, -⟩ | ⟨hj, hgone⟩
    · rw [hj]
      have hlist : Attentive { w with listeners := (w.listeners.enqueue c l).add c l } :=
        h.wanes (.of_charge fun _ => rfl) rfl
      exact (hlist.attached (by simp) l).wanes (.updateTask _ _ _ fun t _ =>
        ⟨rfl, fun h => h, fun h => h⟩) rfl
    · rw [hj]
      have hnote := @attached w h c false (fun _ => hgone) l
      have hspawned := hnote.plain (m := .spawned w.tasks.length c
        ((w.slots.get? c).getD {}).begin.generation) rfl (by simp [Mark.owner?])
      exact hspawned.appended _ rfl rfl

theorem cancel (h : Attentive w) (id : Nat) : Attentive (w.cancel id) := by
  have hflag : Attentive (w.updateTask id fun t => { t with cancelled := true }) :=
    h.wanes (.updateTask w id _ fun t _ => ⟨rfl, fun h => h, nofun⟩) rfl
  exact hflag.plain rfl (by simp [Mark.owner?])

theorem detach (h : Attentive w) (c : String) (l : Listener) : Attentive (w.detach c l).2.2 := by
  have removed : ∀ (listeners : Listeners Listener) (handles : Table String Nat),
      Attentive (({ w with listeners, handles } : World).note (.detached c l)) := by
    intro listeners handles
    have hsame : Attentive { w with listeners, handles } := h.wanes (.of_charge fun _ => rfl) rfl
    exact hsame.plain rfl (by simp [Mark.owner?])
  unfold World.detach
  split
  · exact h
  · dsimp only
    split
    · exact removed _ _
    · exact (removed _ _).cancel _
  · exact removed _ _

theorem edits (h : Attentive w) (hsup : Supervised w) (e : Edits setup w w') : Attentive w' := by
  induction e with
  | aside ha => exact h.aside ha
  | attach w c l => exact h.attach hsup c l
  | detach w c name => exact h.detach c _
  | close w => exact h.wanes (.close w) rfl
  | trans he _ ih ih' => exact ih' (ih h hsup) (hsup.edits he)

/-! ## Steps of a task -/

theorem publish (h : Attentive w) (hch : (w.charge? id).isSome) (t : Task) (s : Status) :
    Attentive (w.publish id t s) := by
  unfold World.publish
  split
  · exact h
  · next slot _ =>
    split
    · have hslot : Attentive
          { w with slots := w.slots.insert t.cluster (slot.publish t.generation s) } :=
        h.wanes (.of_charge fun _ => rfl) rfl
      refine hslot.plain rfl fun j hj => ?_
      cases hj
      exact hch
    · exact h

theorem finishTask (h : Attentive w) (hch : (w.charge? id).isSome) (t : Task) (s : Status) :
    Attentive (w.finishTask id t s) := by
  have hended : Wanes (w.publish id t s) ((w.publish id t s).moveTask id .ended) :=
    .updateTask _ id _ fun t _ => ⟨rfl, nofun, fun h => h⟩
  refine ((h.publish hch t s).wanes hended rfl).plain rfl fun j hj => ?_
  cases hj
  refine hended.known ?_
  rwa [charge?, (publish_others _ _ _ _).1]

/-- The task that acts is live. -/
theorem acts (a : Acts id t w w') (h : Attentive w) (hsup : Supervised w)
    (hch : w.charge? id = some ⟨t.cluster, t.generation, false, false⟩) :
    Attentive w' ∧ w'.charge? id = some ⟨t.cluster, t.generation, false, false⟩ := by
  induction a with
  | aside ha => exact ⟨h.aside ha, by rwa [(Rests.aside ha).charge]⟩
  | @note w m hm =>
    have howner := Mark.owner?_of_isOwn hm
    refine ⟨h.note (fun j hj => ?_) (fun {j ch} hj he hcan => ⟨?_, ?_⟩) ?_, hch⟩
    · rw [howner] at hj
      cases hj
      simp [hch]
    · rintro l joined rfl
      cases hm
    · rintro i queue rfl
      cases hm
    · rintro j ch l hook rfl hj
      cases howner
      cases hch.symm.trans hj
      exact h.live hch rfl rfl
  | update w f hc hg hcan he =>
    obtain ⟨u, hu, hcharge⟩ := Option.map_eq_some_iff.1 hch
    have hend : u.isEnded = false := congrArg Charge.ended hcharge
    have hsame : Rests w (w.updateTask id f) := .updateTask w id f fun v hv => by
      cases hu.symm.trans hv
      simp only [Task.charge, hc, hg, hcan, he u hend, hend]
    exact ⟨h.rests hsame rfl, (hsame.charge id).trans hch⟩
  | publish w hs =>
    exact ⟨h.publish (by simp [hch]) _ _, by rwa [charge?, (publish_others _ _ _ _).1]⟩
  | took w =>
    have hlist : ∀ listeners : Listeners Listener, Attentive { w with listeners } :=
      fun _ => h.wanes (.of_charge fun _ => rfl) rfl
    refine ⟨(hlist _).note (fun j hj => ?_) (fun {j ch} hj he hcan => ⟨?_, ?_⟩) ?_, hch⟩
    · cases hj
      simpa [charge?] using congrArg Option.isSome hch
    · intro l joined hm
      cases hm
    · -- Of the tasks of a cluster only one is live.
      intro i queue hm
      rw [Mark.took.injEq] at hm
      obtain ⟨rfl, hc, -⟩ := hm
      have hheld := hsup.held hj he hcan
      rw [← hc, hsup.held hch rfl rfl, Option.some.injEq] at hheld
      exact hheld
    · intro j ch l hook hm
      cases hm
  | store w => exact ⟨h.wanes (.of_charge fun _ => rfl) rfl, hch⟩
  | trans ha _ ih ih' =>
    obtain ⟨h', hch'⟩ := ih h hsup hch
    exact ih' h' (Supervised.acts ha hsup ⟨false, hch⟩).1 hch'

theorem turn (h : Attentive w) (hsup : Supervised w)
    (hch : w.charge? id = some ⟨t.cluster, t.generation, false, false⟩)
    (hw : Turn setup id t w w') : Attentive w' := by
  cases hw with
  | own hf =>
    cases hf with
    | on ha => exact (acts ha h hsup hch).1
    | off ha =>
      obtain ⟨h', hch'⟩ := acts ha h hsup hch
      exact h'.finishTask (by simp [hch']) _ _
  | called he hp =>
    exact (h.edits hsup he).rests (.moveTask (he.serves ⟨false, hch⟩) hp) rfl

/-- A cancelled task closes its stream and ends. -/
theorem stopTask (h : Attentive w) (hch : (w.charge? id).isSome) :
    Attentive (w.stopTask id t) := by
  have stop : ∀ {v : World}, Aside w v →
      Attentive ((v.closeStream t).finishTask id t .stopped) := by
    intro v hv
    have hclose := Rests.closeStream v t
    have htrace : (v.closeStream t).trace = v.trace := by
      unfold closeStream
      split <;> rfl
    refine ((h.aside hv).rests hclose htrace).finishTask ?_ _ _
    rwa [hclose.charge, (Rests.aside hv).charge]
  unfold World.stopTask
  dsimp only
  split
  · exact stop (abandon_aside w (.task id) _)
  · exact stop (.refl w)

theorem move {m : Move} (h : Attentive w) (hsup : Supervised w) (hm : w.move setup m = some w') :
    Attentive w' := by
  cases move_cases hm with
  | edits he => exact h.edits hsup he
  | @cleared id t ht =>
    refine h.wanes (.updateTask w id _ fun u hu => ⟨rfl, fun he => ?_, fun h => h⟩) rfl
    cases ht.symm.trans hu
    rw [← Bool.not_eq_true, Task.isEnded_iff] at he ⊢
    exact fun hend => he (Position.clear_eq_ended.2 hend)
  | stopped ht => exact h.stopTask (by simp [charge?_of_task ht])
  | went ht he hc hstep =>
    have hch := charge?_of_task ht
    rw [Task.charge, he, hc] at hch
    exact h.turn hsup hch (hstep.turn he)

theorem of_reachable {setups : Nat → Setup} {f : Fleet} (hf : Fleet.Reachable setups f) {i : Nat}
    (hw : f.world? i = some w) : Attentive w := by
  have hboth : Supervised w ∧ Attentive w := hf.keeps (P := fun w => Supervised w ∧ Attentive w)
    (fun store => ⟨.start store, .start store⟩)
    (fun _ _ h => ⟨h.1.rests (.quiet rfl rfl rfl rfl rfl), h.2.wanes (.of_charge fun _ => rfl) rfl⟩)
    (fun _ _ _ _ h hm => ⟨h.1.move hm, h.2.move h.1 hm⟩) hw
  exact hboth.2

end Attentive

end World

namespace Fleet

variable {setups : Nat → Setup} {f : Fleet} {i id : Nat} {w : World} {t : Task}

/-- Whenever a task calls a listener with a message, it has synchronised the listener in the
present era, unless the listener was missed; and a listener is missed only if the message was taken
before the listener joined, or if one of its registrations ended while it was queued. -/
theorem synced_before_event (hf : Reachable setups f) (hw : f.world? i = some w)
    (ht : w.tasks[id]? = some t) {l : Listener} {msg : String} {past : List Mark}
    (hcall : .called id l (.event msg) :: past <:+ w.trace) :
    (Synced t.cluster id l past ↔ ¬ Missed t.cluster id l (setups i) past) ∧
    (Missed t.cluster id l (setups i) past →
      Late t.cluster id l past ∨ Dropped t.cluster id l past) := by
  have hlaws := ((Streamed.of_reachable hf).recorded hw).laws id t ht
  have hpast := hlaws.suffix ((List.suffix_cons _ _).trans hcall)
  have hlaw := hlaws.of_suffix hcall
  have htended := (World.Attentive.of_reachable hf hw).calls (World.charge?_of_task ht) hcall
  exact ⟨synced_iff hpast hlaw, late_or_dropped hpast htended hlaw⟩

/-- The last mark is a call with a message, in an era that began with the stream. -/
def isPrompt (c : String) (id : Nat) (l : Listener) : List Mark → Bool
  | .called i k (.event _) :: past => i = id && k = l && match dawn c id l past with
    | .opened _ _ _ :: _ => true
    | _ => false
  | _ => false

theorem not_missed_of_isPrompt {setup : Setup} {c : String} {l : Listener} {trace : List Mark}
    (h : isPrompt c id l trace = true) : ∃ msg past,
      trace = .called id l (.event msg) :: past ∧ ¬ Missed c id l setup past := by
  unfold isPrompt at h
  split at h
  · next i k msg past =>
    simp only [Bool.and_eq_true, decide_eq_true_eq] at h
    obtain ⟨⟨rfl, rfl⟩, hd⟩ := h
    refine ⟨msg, past, rfl, ?_⟩
    rintro ⟨joined, before, hd', -⟩
    simp [hd'] at hd
  · cases h

/-- A listener that was there when the stream was opened is synchronised before its first message. -/
theorem synced_before_event_delivery : ∃ f w t msg past, Reachable (fun _ => .plain "me@here") f ∧
    f.world? 0 = some w ∧ w.tasks[0]? = some t ∧
    .called 0 (.user "l") (.event msg) :: past <:+ w.trace ∧
    Synced t.cluster 0 (.user "l") past := by
  obtain ⟨f, w, hf, hw, hp⟩ := exists_of_run (fun _ => .plain "me@here") .usual 1 0
    ([(0, .ask 0 (.attach "c" "l"))] ++ List.replicate 4 (0, .step (.task 0)) ++
      [(0, .ask 0 (.send "registry.redis.c" ["10.0.0.1:8091-REGISTER"]))] ++
      List.replicate 3 (0, .step (.task 0)))
    (fun w => (w.tasks[0]?).any fun t => isPrompt t.cluster 0 (.user "l") w.trace)
    rfl (by decide +kernel)
  obtain ⟨t, ht, hp⟩ := (Option.any_eq_true _ _).1 hp
  obtain ⟨msg, past, htrace, hmissed⟩ := @not_missed_of_isPrompt 0 (.plain "me@here") _ _ _ hp
  have hs : .called 0 (.user "l") (.event msg) :: past <:+ w.trace := htrace ▸ List.suffix_rfl
  exact ⟨f, w, t, msg, past, hf, hw, ht, hs, (synced_before_event hf hw ht hs).1.2 hmissed⟩

/-- The last mark is a call with a message, and the listener was not called to synchronise in the
present era; the message was taken before the era, or in it. -/
def isEarly (c : String) (l : Listener) (late : Bool) : List Mark → Bool
  | .called id k (.event _) :: past => k = l &&
    (era c id l past).all (fun
      | .called i k .sync => !(i = id && k = l)
      | _ => true) &&
    (era c id l past).all (fun
      | .dispatched i _ _ => i != id
      | _ => true) == late
  | _ => false

theorem not_synced_of_isEarly {c : String} {l : Listener} {late : Bool} {trace : List Mark}
    (h : isEarly c l late trace = true) : ∃ id msg past,
      trace = .called id l (.event msg) :: past ∧ ¬ Synced c id l past ∧
      (late = true → Late c id l past) ∧ (Late c id l past → late = true) := by
  unfold isEarly at h
  split at h
  · next id k msg past =>
    simp only [Bool.and_eq_true, decide_eq_true_eq, beq_iff_eq, List.all_eq_true] at h
    obtain ⟨⟨rfl, hall⟩, hlate⟩ := h
    refine ⟨id, msg, past, rfl, fun hs => ?_, ?_, fun hnone => ?_⟩
    · have hcalled := hall _ (hs.subset (List.mem_cons_of_mem _ List.mem_cons_self))
      simp at hcalled
    · rintro rfl m audience hm
      have hother := List.all_eq_true.1 hlate _ hm
      simp at hother
    · rw [← hlate, List.all_eq_true]
      intro m hm
      split
      · next i m audience =>
        have hne : i ≠ id := by
          rintro rfl
          exact hnone m audience hm
        simpa using hne
      · rfl
  · cases h

/-- Listeners are called with a message that were not synchronised: one that was registered twice
while its task was running, and lost its place in the queue with one of the registrations; and one
that left and came back while the message was on its way to the others. -/
theorem event_before_sync :
    (∃ f w id msg past, Reachable (fun _ => .plain "me@here") f ∧ f.world? 0 = some w ∧
      w.trace = .called id (.user "m") (.event msg) :: past ∧
      ¬ Synced "c" id (.user "m") past ∧ ¬ Late "c" id (.user "m") past) ∧
    (∃ f w id msg past, Reachable (fun _ => .plain "me@here") f ∧ f.world? 0 = some w ∧
      w.trace = .called id (.user "m") (.event msg) :: past ∧
      ¬ Synced "c" id (.user "m") past ∧ Late "c" id (.user "m") past) := by
  refine ⟨?_, ?_⟩
  · obtain ⟨f, w, hf, hw, hp⟩ := exists_of_run (fun _ => .plain "me@here") .usual 1 0
      ([(0, .ask 0 (.attach "c" "l"))] ++ List.replicate 4 (0, .step (.task 0)) ++
        [(0, .ask 0 (.attach "c" "m")), (0, .ask 0 (.attach "c" "m")),
          (0, .ask 0 (.detach "c" "m" false)),
          (0, .ask 0 (.send "registry.redis.c" ["10.0.0.1:8091-REGISTER"]))] ++
        List.replicate 7 (0, .step (.task 0)))
      (fun w => isEarly "c" (.user "m") false w.trace) rfl (by decide +kernel)
    obtain ⟨id, msg, past, htrace, hs, -, hlate⟩ := not_synced_of_isEarly hp
    exact ⟨f, w, id, msg, past, hf, hw, htrace, hs, fun h => by cases hlate h⟩
  · obtain ⟨f, w, hf, hw, hp⟩ := exists_of_run (fun _ => .plain "me@here") .usual 1 0
      ([(0, .ask 0 (.attach "c" "l")), (0, .ask 0 (.attach "c" "m"))] ++
        List.replicate 8 (0, .step (.task 0)) ++
        [(0, .ask 0 (.send "registry.redis.c" ["10.0.0.1:8091-REGISTER"]))] ++
        List.replicate 4 (0, .step (.task 0)) ++
        [(0, .ask 0 (.detach "c" "m" false)), (0, .ask 0 (.attach "c" "m")), (0, .step (.task 0))])
      (fun w => isEarly "c" (.user "m") true w.trace) rfl (by decide +kernel)
    obtain ⟨id, msg, past, htrace, hs, hlate, -⟩ := not_synced_of_isEarly hp
    exact ⟨f, w, id, msg, past, hf, hw, htrace, hs, hlate rfl⟩

end Fleet

end Muster
