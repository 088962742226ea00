import Muster.Proofs.Attempts
import Muster.Proofs.Supervision

/-!
# Every step keeps to the grammar

Where a task stands after each of its steps, what is then told of its attempt, and what became of
its stream (`Flow`). `Stands.taskStep` puts the steps together; the steps of others leave the task
where it was.
-/
namespace Muster

/-- What a step makes of an attempt, a position and the store. -/
inductive Flow (key : String) (a : Attempt) (p : Position) (m : Memory) (a' : Attempt)
    (p' : Position) (m' : Memory) : Prop where
  /-- The stream, if there is one, stays where it is. -/
  | calm (hstart : a'.start = a.start) (hpay : a'.payloads = a.payloads)
      (hp : p'.stream? = p.stream?) (hm : m.Calm m')
  /-- A new attempt got no stream. -/
  | refused (hpay : a'.payloads = []) (hp : p'.stream? = none) (hm : m.Calm m')
      (hnone : p.stream? = none)
  | opened {s : Nat} (hstart : a'.start = (m.log key).length) (hpay : a'.payloads = [])
      (hp : p'.stream? = some s) (hm : m.subscribe key = .ok (s, m')) (hnone : p.stream? = none)
  | closed {s : Nat} {m₁ : Memory} (hstart : a'.start = a.start) (hpay : a'.payloads = a.payloads)
      (hp : p.stream? = some s) (hp' : p'.stream? = none) (hm : m.Calm m₁)
      (hm' : m' = m₁.close key s)
  | took {s : Nat} {x : String} {m₁ : Memory} (hstart : a'.start = a.start)
      (hpay : a'.payloads = a.payloads ++ [x]) (hp : p.stream? = some s)
      (hm : m.next key s = (.message x, m₁))
      (hp' : p'.stream? = some s ∧ m' = m₁ ∨ p'.stream? = none ∧ m' = m₁.close key s)
  | lost {s : Nat} {r : Reading} {m₁ : Memory} (hstart : a'.start = a.start)
      (hpay : a'.payloads = a.payloads) (hp : p.stream? = some s) (hp' : p'.stream? = none)
      (hm : m.next key s = (r, m₁)) (hm' : m' = m₁.close key s)

/-- The task is between two attempts, or at its end. -/
def Position.IsAway (p : Position) : Prop := p = .ended ∨ ∃ due, p = .waiting due

theorem Position.IsAway.stream? {p : Position} (h : p.IsAway) : p.stream? = none := by
  rcases h with rfl | ⟨due, rfl⟩ <;> rfl

theorem Attempt.Follows.of_away {a : Attempt} {p : Position} (h : p.IsAway) (ha : a.phase = .over) :
    a.Follows p := by
  rcases h with rfl | ⟨due, rfl⟩
  · trivial
  · exact ha

theorem Event.isFatal_of_decode {m : String} {f : Fault} (h : Event.decode m = .error f) :
    f.isFatal = true := by
  unfold Event.decode at h
  split at h
  · cases h; rfl
  · split at h
    · cases h; rfl
    · split at h
      · cases h; rfl
      · cases h

namespace World

theorem publish_store (w : World) (id : Nat) (t : Task) (s : Status) :
    (w.publish id t s).store = w.store := by
  unfold publish
  split
  · rfl
  · split <;> rfl

theorem finishTask_store (w : World) (id : Nat) (t : Task) (s : Status) :
    (w.finishTask id t s).store = w.store := publish_store w id t s

theorem applyEvent_store (w : World) (c m : String) : (w.applyEvent c m).2.store = w.store := by
  unfold applyEvent
  split <;> rfl

/-- The store once the stream of a task was closed. -/
def left (t : Task) (m : Memory) : Memory :=
  match t.position.stream? with
  | some s => m.close (registryKey t.cluster) s
  | none => m

theorem closeStream_store (w : World) (t : Task) : (w.closeStream t).store = left t w.store := by
  unfold closeStream left
  split <;> simp_all

namespace Stands

variable {setup : Setup} {c : String} {id : Nat} {w w' : World} {a : Attempt} {p : Position}
  {t : Task}

theorem finishTask (h : Stands setup c id w a p) {s : Status} (hs : s ≠ .active) :
    Stands setup c id (w.finishTask id t s) a .ended := by
  have hended := (h.publish (t := t) hs).moveTask .ended
  exact hended.note rfl trivial

theorem dropAttempt (h : Stands setup c id w a p) : ∃ p', p'.IsAway ∧
    Stands setup c id (w.dropAttempt setup id t) a p' ∧
    (w.dropAttempt setup id t).store = w.store := by
  rcases dropAttempt_cases setup w id t with ⟨-, heq⟩ | ⟨-, heq⟩ <;> rw [heq]
  · have hfail : Stands setup c id (w.updateTask id fun u => { u with failures := t.failures + 1 })
        a p :=
      h.elsewhere (.updateTask w id _ fun _ u => ⟨rfl, rfl, fun h => h⟩) (h.booked.same rfl rfl)
    have hcount : Stands setup c id ((w.updateTask id fun u =>
        { u with failures := t.failures + 1 }).count .subscriptionFailures) a p :=
      hfail.same rfl rfl rfl
    exact ⟨.ended, .inl rfl, hcount.finishTask (by simp), finishTask_store _ _ _ _⟩
  · have hdraw : Stands setup c id { w with draws := w.draws + 1 } a p := h.same rfl rfl rfl
    have hwait := hdraw.move (fun u => { u with
      failures := t.failures + 1, backoff := t.backoff.next.2
      position := .waiting (w.clock + setup.delay w.draws t.backoff.next.1) }) _
      (fun _ => rfl) fun _ => rfl
    exact ⟨_, .inr ⟨_, rfl⟩, hwait.publish (by simp), publish_store _ _ _ _⟩

/-- The end of an attempt, after which the stream is closed. -/
theorem endAttempt (h : Stands setup c id w a p) (f : Fault) : ∃ p', p'.IsAway ∧
    Stands setup c id (w.endAttempt setup id t f) a p' ∧
    (w.endAttempt setup id t f).store = left t w.store ∧
    (f.isFatal = true → p' = .ended) := by
  have hclose : Stands setup c id (w.closeStream t) a p := by
    unfold closeStream
    split
    · exact h.same rfl rfl rfl
    · exact h
  unfold World.endAttempt
  dsimp only
  split
  · have hcount : Stands setup c id ((w.closeStream t).count .subscriptionFailures) a p :=
      hclose.same rfl rfl rfl
    exact ⟨.ended, .inl rfl, hcount.finishTask (by simp),
      (finishTask_store _ _ _ _).trans (closeStream_store w t), fun _ => rfl⟩
  · next hf =>
    obtain ⟨p', hp', hs, hstore⟩ := hclose.dropAttempt (t := t)
    exact ⟨p', hp', hs, hstore.trans (closeStream_store w t), fun h => absurd h hf⟩

/-- A call returned: the pass goes on, or the attempt is over. -/
theorem afterCallback (h : Stands setup c id w a p) {pass : Pass} {l : Listener}
    (ha : a.phase = .within (l, pass.hook)) (s : Nat) (fault : Option Fault)
    (rest : List Listener) :
    (Stands setup c id (w.afterCallback setup id t s pass l fault rest)
        { a with phase := .between } (.passing s pass rest) ∧
      (w.afterCallback setup id t s pass l fault rest).store = w.store) ∨
    ∃ p', p'.IsAway ∧
      Stands setup c id (w.afterCallback setup id t s pass l fault rest)
        { a with phase := .over } p' ∧
      (w.afterCallback setup id t s pass l fault rest).store = left t w.store := by
  have hnote := h.note (m := .returned id l pass.hook fault) rfl fun _ => h.record ▸ ha
  simp only [Attempt.after, if_true] at hnote
  have hcount : ∀ k, Stands setup c id ((w.note (.returned id l pass.hook fault)).count k) _ p :=
    fun k => hnote.same rfl rfl rfl
  unfold World.afterCallback
  dsimp only
  split
  · left
    exact ⟨hnote.moveTask _, rfl⟩
  · next f m =>
    split
    · next hf =>
      right
      obtain ⟨p', hp', hs, hstore, -⟩ := (hcount .protocolFaults).endAttempt (t := t) f
      simp only [Pass.hook, Hook.isBroken, hf, if_true] at hs
      exact ⟨p', hp', hs, hstore⟩
    · next hf =>
      left
      have hs := (hcount .listenerFaults).moveTask (.passing s (.delivery m) rest)
      simp only [Pass.hook, Hook.isBroken, hf] at hs
      exact ⟨hs, rfl⟩
  · next f hpass =>
    right
    obtain ⟨p', hp', hs, hstore, -⟩ := hnote.endAttempt (t := t) f
    have hbroken : pass.hook.isBroken (some f) = true := by
      cases pass <;> first | rfl | exact (hpass _ rfl).elim
    rw [hbroken] at hs
    exact ⟨p', hp', hs, hstore⟩

end Stands

end World

/-! ## Where each step leads -/

namespace Attempt

variable {setup : Setup} {a : Attempt} {p p' : Position}

theorem follows_clear : a.Follows p.clear ↔ a.Follows p := by
  unfold Position.clear
  split <;> rfl

theorem Fits.away (hm : a.messages = a.payloads.filterMap setup.message?)
    (hg : ¬ a.Garbled setup) (ha : a.phase = .over) (hp : p.IsAway) : a.Fits setup p false :=
  ⟨.of_away hp ha, hm, fun h => absurd h hg, fun _ => .inl ha⟩

theorem Fits.on (hf : a.Follows p) (hm : a.messages = a.payloads.filterMap setup.message?)
    (hg : ¬ a.Garbled setup) (hp : p ≠ .ended) : a.Fits setup p false :=
  ⟨hf, hm, fun h => absurd h hg, fun h => absurd h hp⟩

theorem Fits.mono {k k' : Bool} (h : a.Fits setup p k) (hk : k = true → k' = true) :
    a.Fits setup p k' :=
  ⟨h.follows, h.messages, h.garbled, fun hp => (h.ended hp).imp_right hk⟩

theorem not_garbled_of_nil (h : a.payloads = []) : ¬ a.Garbled setup := by
  rintro ⟨p, m, f, hp, -⟩
  simp [h] at hp

end Attempt

namespace World

/-- A step leads to an attempt that fits the new position, and to a store that fits both. -/
def Advances (setup : Setup) (id : Nat) (t : Task) (w : World) (a : Attempt) (w' : World) : Prop :=
  ∃ a' p', Stands setup t.cluster id w' a' p' ∧ a'.Fits setup p' false ∧
    Flow (registryKey t.cluster) a t.position w.store a' p' w'.store

namespace Stands

variable {setup : Setup} {id : Nat} {w w' : World} {a : Attempt} {t : Task} {s : Nat} {pass : Pass}
  {l : Listener} {rest : List Listener}

/-- What is left of a stream when the attempt ends. -/
theorem flow_left {key : String} {a a' : Attempt} {p' : Position} {m m' : Memory} {s : Nat}
    (hs : t.position.stream? = some s) (hkey : key = registryKey t.cluster)
    (hstart : a'.start = a.start) (hpay : a'.payloads = a.payloads) (hp' : p'.IsAway)
    (hm : m.Calm m') : Flow key a t.position m a' p' (left t m') :=
  .closed hstart hpay hs hp'.stream? hm (by simp [left, hs, hkey])

/-- A listener's call has returned, in a world that others did not change but for the store. -/
theorem returned_advances {v : World} (h : Stands setup t.cluster id v a p) (a₀ : Attempt)
    (hcalm : w.store.Calm v.store) (hs : t.position.stream? = some s)
    (ha : a.phase = .within (l, pass.hook)) (hdue : a.agenda = a.calls ++ due pass rest)
    (hwarm : a.Warm pass) (hm : a.messages = a.payloads.filterMap setup.message?)
    (hg : ¬ a.Garbled setup) (hstart : a.start = a₀.start)
    (hpay : a.payloads = a₀.payloads) (fault : Option Fault) :
    Advances setup id t w a₀ (v.afterCallback setup id t s pass l fault rest) := by
  rcases h.afterCallback (t := t) ha s fault rest with ⟨hst, hstore⟩ | ⟨p', hp', hst, hstore⟩
  · refine ⟨_, _, hst, .on ⟨rfl, hdue, ?_⟩ hm hg (by simp), ?_⟩
    · cases pass <;> exact hwarm
    · rw [hstore]
      exact .calm hstart hpay hs.symm hcalm
  · refine ⟨_, _, hst, .away hm hg rfl hp', ?_⟩
    rw [hstore]
    exact flow_left hs rfl hstart hpay hp' hcalm

theorem openStream_cases (h : Stands setup t.cluster id w a p) (ha : a.phase = .over)
    {r : Except Fault Nat} {v : World}
    (hopen : w.openStream (.task id) (registryKey t.cluster) = (r, v)) :
    Stands setup t.cluster id v {} p ∧
      v.trace = .stored (.task id) (.subscribe (registryKey t.cluster))
        (match r with | .ok _ => none | .error f => some f) :: w.trace ∧
      ((∃ f, r = .error f ∧ v.store = w.store) ∨
        ∃ s, r = .ok s ∧ w.store.subscribe (registryKey t.cluster) = .ok (s, v.store)) := by
  have hlaw : ∀ {u : World} {f : Option Fault}, u.trace = w.trace →
      Lawful setup t.cluster id u.trace
        (.stored (.task id) (.subscribe (registryKey t.cluster)) f) := by
    intro u f hu _
    rw [hu, h.record]
    exact ⟨ha, rfl⟩
  unfold World.openStream at hopen
  rcases perform_cases w (.task id) (.subscribe (registryKey t.cluster)) _ with
    ⟨f, faults, hp⟩ | ⟨s, store, faults, hc, hp⟩
  · rw [hp] at hopen
    cases hopen
    have hfaults : Stands setup t.cluster id { w with faults } a p := h.same rfl rfl rfl
    have hnote := hfaults.note (m := .stored (.task id) (.subscribe (registryKey t.cluster)) (some f))
      rfl (hlaw rfl)
    exact ⟨by simpa [Attempt.after] using hnote, rfl, .inl ⟨f, rfl, rfl⟩⟩
  · rw [hp] at hopen
    cases hopen
    have hstore : Stands setup t.cluster id { w with faults, store } a p := h.same rfl rfl rfl
    have hnote := hstore.note (m := .stored (.task id) (.subscribe (registryKey t.cluster)) none)
      rfl (hlaw rfl)
    exact ⟨by simpa [Attempt.after] using hnote, rfl,
      .inr ⟨s, rfl, hc⟩⟩

theorem refused (h : Stands setup t.cluster id w a t.position) (ha : a.phase = .over)
    (hnone : t.position.stream? = none) {f : Fault} {v : World}
    (hopen : w.openStream (.task id) (registryKey t.cluster) = (.error f, v)) :
    Advances setup id t w a (v.dropAttempt setup id t) := by
  obtain ⟨hst, -, ⟨_, -, hstore⟩ | ⟨_, hr, -⟩⟩ := h.openStream_cases ha hopen
  · obtain ⟨p', hp', hst, hdrop⟩ := hst.dropAttempt (t := t)
    refine ⟨_, p', hst, .away rfl (Attempt.not_garbled_of_nil rfl) rfl hp',
      .refused rfl hp'.stream? ?_ hnone⟩
    rw [hdrop, hstore]
    exact .refl _
  · cases hr

theorem opened (h : Stands setup t.cluster id w a t.position) (ha : a.phase = .over)
    (hnone : t.position.stream? = none) {s : Nat} {v : World}
    (hopen : w.openStream (.task id) (registryKey t.cluster) = (.ok s, v)) :
    Advances setup id t w a (v.beginFullPass id t s) := by
  obtain ⟨hst, htrace, ⟨_, hr, -⟩ | ⟨s', hr, hsub⟩⟩ := h.openStream_cases ha hopen
  · cases hr
  · cases hr
    have htake := hst.takePending (.inl ⟨_, _, htrace⟩)
    have hnote := htake.note (m := .opened id s (v.store.log (registryKey t.cluster)).length) rfl
      fun _ => ⟨v.listeners.pending t.cluster, w.trace, by simp [World.takePending, World.note, htrace]⟩
    have hmove := hnote.moveTask (.passing s .full (v.listeners.of t.cluster))
    have hof : registered t.cluster (v.takePending id t.cluster).2.trace =
        v.listeners.of t.cluster := by
      rw [← htake.booked.of t.cluster]
      simp [World.takePending, World.note]
    simp only [Attempt.after, if_true, hof] at hmove
    refine ⟨_, _, hmove, .on ⟨rfl, rfl, rfl⟩ rfl (Attempt.not_garbled_of_nil rfl) (by simp),
      .opened ?_ rfl rfl hsub hnone⟩
    obtain ⟨-, -, hspares, -⟩ := Memory.subscribe_spares hsub
    show (v.store.log _).length = _
    rw [hspares.log]

theorem passed (h : Stands setup t.cluster id w a t.position) (fits : a.Fits setup t.position false)
    (hp : t.position = .passing s pass [])
    (hslot : ∃ slot, w.slots.get? t.cluster = some slot ∧ slot.generation = t.generation) :
    Advances setup id t w a (w.finishPass id t s pass) := by
  have hfollows := fits.follows
  rw [hp] at hfollows
  obtain ⟨hphase, hdue, hwarm⟩ := hfollows
  have hg : ¬ a.Garbled setup := fun hg => by simp [fits.garbled hg] at hp
  have calm : ∀ {a' : Attempt} {p' : Position}, a'.start = a.start → a'.payloads = a.payloads →
      p'.stream? = some s →
      Flow (registryKey t.cluster) a t.position w.store a' p' w.store := fun h1 h2 h3 =>
    .calm h1 h2 (by rw [hp]; exact h3) (.refl _)
  cases pass with
  | full =>
    obtain ⟨slot, hs, hgen⟩ := hslot
    have hfirst : a.agenda = a.first := hwarm
    have hcalls : a.calls = a.first := by simpa [due, visitsTo, hfirst] using hdue.symm
    have hpub := h.publishActive (t := t) hs hgen hphase hcalls hfirst
    have hmove := hpub.move (fun t => { t with
      failures := 0, backoff := t.backoff.reset, position := .listening s }) (.listening s)
      (fun _ => rfl) fun _ => rfl
    refine ⟨_, _, hmove, .on ⟨hphase, hfirst.trans hcalls.symm, rfl⟩ fits.messages hg (by simp), ?_⟩
    have hstore : (w.finishPass id t s .full).store = w.store := publish_store w id t .active
    rw [hstore]
    exact calm rfl rfl rfl
  | joined =>
    refine ⟨_, _, h.moveTask (.listening s), .on ⟨hphase, ?_, hwarm⟩ fits.messages hg (by simp),
      calm rfl rfl rfl⟩
    simpa [due, visitsTo] using hdue
  | beforeDelivery m audience =>
    refine ⟨_, _, h.moveTask (.passing s (.delivery m) audience), .on ⟨hphase, ?_, hwarm⟩
      fits.messages hg (by simp), calm rfl rfl rfl⟩
    simpa [due, visitsTo, Pass.hook] using hdue
  | delivery m =>
    refine ⟨_, _, h.moveTask (.listening s), .on ⟨hphase, ?_, hwarm⟩ fits.messages hg (by simp),
      calm rfl rfl rfl⟩
    simpa [due, visitsTo] using hdue

theorem applyEvent {c : String} (h : Stands setup c id w a p) (k m : String) :
    Stands setup c id (w.applyEvent k m).2 a p := by
  unfold World.applyEvent
  split
  · exact h
  · exact h.same rfl rfl rfl

theorem called (h : Stands setup t.cluster id w a t.position)
    (fits : a.Fits setup t.position false) (hp : t.position = .passing s pass (l :: rest)) :
    Advances setup id t w a (w.call setup id t s pass l rest) := by
  have hfollows := fits.follows
  rw [hp] at hfollows
  obtain ⟨hphase, hdue, hwarm⟩ := hfollows
  have hg : ¬ a.Garbled setup := fun hg => by simp [fits.garbled hg] at hp
  have hdue : a.agenda = a.calls ++ [(l, pass.hook)] ++ due pass rest := by
    cases pass <;> simpa [due, visitsTo, Pass.hook] using hdue
  have hnote := h.note (m := .called id l pass.hook) rfl fun _ => by
    rw [h.record]
    exact ⟨hphase, by rw [hdue]; exact List.prefix_append _ _⟩
  simp only [Attempt.after, if_true] at hnote
  have hwarm' : ∀ ph, Attempt.Warm { a with phase := ph, calls := a.calls ++ [(l, pass.hook)] } pass :=
    fun _ => by cases pass <;> exact hwarm
  have calm : ∀ {a' : Attempt} {p' : Position}, a'.start = a.start → a'.payloads = a.payloads →
      p'.stream? = some s →
      Flow (registryKey t.cluster) a t.position w.store a' p' w.store := fun h1 h2 h3 =>
    .calm h1 h2 (by rw [hp]; exact h3) (.refl _)
  cases l with
  | user name =>
    have hvisit : ∀ visits : Table (String × Bool) Nat, Stands setup t.cluster id
        { w.note (.called id (.user name) pass.hook) with visits } _ t.position :=
      fun _ => hnote.same rfl rfl rfl
    exact ⟨_, _, (hvisit _).moveTask _, .on ⟨rfl, hdue, hwarm' _⟩ fits.messages hg (by simp),
      calm rfl rfl rfl⟩
  | updater k n =>
    cases hk : pass.hook with
    | sync =>
      simp only [World.call, hk] at hnote hdue hwarm' ⊢
      exact ⟨_, _, hnote.moveTask _, .on ⟨by rw [hk], hdue, hwarm' _⟩ fits.messages hg (by simp),
        calm rfl rfl rfl⟩
    | event message =>
      simp only [World.call, hk]
      rw [hk] at hnote
      rw [hk] at hdue hwarm'
      have hcalm : w.store.Calm ((w.note (.called id (.updater k n) (.event message))).applyEvent
          t.cluster message).2.store := by
        rw [applyEvent_store]
        exact .refl _
      exact (hnote.applyEvent t.cluster message).returned_advances a hcalm (by rw [hp]; rfl)
        (by rw [hk]) hdue (hwarm' _) fits.messages hg rfl rfl _

/-- Whatever a call does, made by the task itself or not, the task stays where it is. -/
theorem edits {c : String} (h : Stands setup c id w a p) (e : Edits setup w w') :
    Stands setup c id w' a p := h.elsewhere (.edits e) (h.booked.edits e)

theorem settled {v : World} {cb : Callback} {name label : String} {more : List (String × Action)}
    {fault : Option Fault} (h : Stands setup t.cluster id v a t.position)
    (fits : a.Fits setup t.position false) (hp : t.position = .calling s pass l cb rest)
    (hcalm : w.store.Calm v.store) (pr : Progress) :
    Advances setup id t w a (v.settleAction id s pass l rest name label more fault pr) := by
  have hfollows := fits.follows
  rw [hp] at hfollows
  have hg : ¬ a.Garbled setup := fun hg => by simp [fits.garbled hg] at hp
  cases pr with
  | finished answer =>
    have hnote := h.note (m := .did name label answer) rfl trivial
    exact ⟨_, _, hnote.moveTask _, .on hfollows fits.messages hg (by simp),
      .calm rfl rfl (by rw [hp]; rfl) hcalm⟩
  | paused stage =>
    exact ⟨_, _, h.moveTask _, .on hfollows fits.messages hg (by simp),
      .calm rfl rfl (by rw [hp]; rfl) hcalm⟩

/-- The call of a listener came to its end. -/
theorem returned {v : World} {cb : Callback} (h : Stands setup t.cluster id v a t.position)
    (fits : a.Fits setup t.position false) (hp : t.position = .calling s pass l cb rest)
    (hcalm : w.store.Calm v.store) (fault : Option Fault) :
    Advances setup id t w a (v.afterCallback setup id t s pass l fault rest) := by
  have hfollows := fits.follows
  rw [hp] at hfollows
  obtain ⟨hphase, hdue, hwarm⟩ := hfollows
  have hg : ¬ a.Garbled setup := fun hg => by simp [fits.garbled hg] at hp
  exact h.returned_advances a hcalm (by rw [hp]; rfl) hphase hdue hwarm fits.messages hg rfl rfl fault

theorem woken (h : Stands setup t.cluster id w a t.position) (fits : a.Fits setup t.position false)
    (hp : t.position = .listening s) {v : World}
    (hv : v = w.updateTask id fun t => { t with notified := false }) :
    Advances setup id t w a ((v.takePending id t.cluster).2.moveTask id
      (.passing s .joined (v.takePending id t.cluster).1)) := by
  have hfollows := fits.follows
  rw [hp] at hfollows
  obtain ⟨hphase, hagenda, hactive⟩ := hfollows
  have hg : ¬ a.Garbled setup := fun hg => by simp [fits.garbled hg] at hp
  have hseen : Stands setup t.cluster id v a t.position := by
    subst hv
    exact h.elsewhere (.updateTask w id _ fun _ u => ⟨rfl, rfl, fun h => h⟩) (h.booked.same rfl rfl)
  have htake := (hseen.takePending (.inr ⟨hphase, hagenda.symm⟩)).moveTask
    (.passing s .joined (v.takePending id t.cluster).1)
  refine ⟨_, _, htake, .on ⟨hphase, ?_, hactive⟩ fits.messages hg (by simp),
    .calm rfl rfl (by rw [hp]; rfl) ?_⟩
  · rw [hagenda]
    rfl
  · subst hv
    exact .refl _

theorem ceased (h : Stands setup t.cluster id w a t.position)
    (fits : a.Fits setup t.position false) (hp : t.position = .listening s) {r : Reading}
    {store : Memory} (hnext : w.store.next (registryKey t.cluster) s = (r, store))
    (hr : r = .ended ∨ ∃ n, r = .lagged n) (f : Fault) :
    Advances setup id t w a (({ w with store }.note (.read id r)).endAttempt setup id t f) := by
  have hfollows := fits.follows
  rw [hp] at hfollows
  obtain ⟨hphase, hagenda, hactive⟩ := hfollows
  have hg : ¬ a.Garbled setup := fun hg => by simp [fits.garbled hg] at hp
  have hstore : Stands setup t.cluster id { w with store } a t.position := h.same rfl rfl rfl
  have hnote := hstore.note (m := .read id r) rfl fun _ => by
    rw [hstore.record]
    exact ⟨hphase, hagenda.symm, hactive⟩
  have hover : a.after setup t.cluster id w.trace (.read id r) = { a with phase := .over } := by
    rcases hr with rfl | ⟨n, rfl⟩ <;> simp [Attempt.after]
  rw [hover] at hnote
  obtain ⟨p', hp', hst, hend, -⟩ := hnote.endAttempt (t := t) f
  refine ⟨_, p', hst, .away fits.messages hg rfl hp',
    .lost rfl rfl (by rw [hp]; rfl) hp'.stream? hnext ?_⟩
  rw [hend]
  simp [left, hp, Position.stream?, World.note]

theorem received (h : Stands setup t.cluster id w a t.position)
    (fits : a.Fits setup t.position false) (hp : t.position = .listening s) {payload : String}
    {store : Memory} (hnext : w.store.next (registryKey t.cluster) s = (.message payload, store)) :
    Advances setup id t w a
      (({ w with store }.note (.read id (.message payload))).receive setup id t s payload) := by
  have hfollows := fits.follows
  rw [hp] at hfollows
  obtain ⟨hphase, hagenda, hactive⟩ := hfollows
  have hstore : Stands setup t.cluster id { w with store } a t.position := h.same rfl rfl rfl
  have hnote := hstore.note (m := .read id (.message payload)) rfl fun _ => by
    rw [hstore.record]
    exact ⟨hphase, hagenda.symm, hactive⟩
  simp only [Attempt.after, if_true] at hnote
  have hs : t.position.stream? = some s := by rw [hp]; rfl
  have away : ∀ {v : World} {p' : Position} {a' : Attempt}, p'.IsAway → a'.start = a.start →
      a'.payloads = a.payloads ++ [payload] → v.store = left t store →
      Flow (registryKey t.cluster) a t.position w.store a' p' v.store :=
    fun hp' h1 h2 hv => .took h1 h2 hs hnext (.inr ⟨hp'.stream?, by rw [hv]; simp [left, hs]⟩)
  unfold World.receive
  cases hscreen : setup.screen payload with
  | error f =>
    have hnone : setup.message? payload = none := by simp [Setup.message?, hscreen]
    obtain ⟨p', hp', hst, hend, -⟩ := hnote.endAttempt (t := t) f
    simp only [hnone, Option.isSome_none, Bool.false_eq_true, if_false] at hst
    refine ⟨_, p', hst, .away ?_ ?_ rfl hp', away hp' rfl rfl hend⟩
    · simpa [hnone] using fits.messages
    · rintro ⟨p, m, f', hlast, hm, -⟩
      simp only [List.getLast?_concat, Option.some.injEq] at hlast
      rw [← hlast, hscreen] at hm
      cases hm
  | ok m =>
    dsimp only
    cases hdecode : Event.decode m with
    | error f =>
      have hnone : setup.message? payload = none := by simp [Setup.message?, hscreen, hdecode]
      have hcount : ∀ {v : World} {a : Attempt} {p : Position}, Stands setup t.cluster id v a p →
          Stands setup t.cluster id ((v.count .eventsReceived).count .protocolFaults) a p :=
        fun h => h.same rfl rfl rfl
      obtain ⟨p', hp', hst, hend, hfatal⟩ := (hcount hnote).endAttempt (t := t) f
      simp only [hnone, Option.isSome_none, Bool.false_eq_true, if_false] at hst
      have hp'' : p' = .ended := hfatal (Event.isFatal_of_decode hdecode)
      refine ⟨_, p', hst, ⟨.of_away hp' rfl, ?_, fun _ => hp'', fun _ => .inl rfl⟩,
        away hp' rfl rfl hend⟩
      simpa [hnone] using fits.messages
    | ok e =>
      have hsome : setup.message? payload = some m := by simp [Setup.message?, hscreen, hdecode]
      simp only [hsome, Option.isSome_some, if_true] at hnote
      have hcount : ∀ {v : World} {a : Attempt} {p : Position}, Stands setup t.cluster id v a p →
          Stands setup t.cluster id (v.count .eventsReceived) a p := fun h => h.same rfl rfl rfl
      have htake := (hcount hnote).takePending (.inr ⟨rfl, hagenda.symm⟩)
      have hof : registered t.cluster ((({ w with store }.note (.read id (.message payload))).count
          .eventsReceived).takePending id t.cluster).2.trace = w.listeners.of t.cluster := by
        rw [← htake.booked.of t.cluster]
        simp [World.takePending, World.note, World.count]
      have hdispatch := htake.note (m := .dispatched id m (w.listeners.of t.cluster)) rfl fun _ =>
        ⟨hof.symm, _, payload, w.trace, rfl, hsome⟩
      simp only [Attempt.after, if_true, hof] at hdispatch
      refine ⟨_, _, hdispatch.moveTask _, .on ⟨rfl, ?_, hactive⟩ ?_ ?_ (by simp),
        .took rfl rfl hs hnext (.inl ⟨rfl, rfl⟩)⟩
      · rw [hagenda]
        simp [due, World.takePending, World.count, World.note]
      · simp [hsome, fits.messages]
      · rintro ⟨p, m', f', hlast, hm, hf⟩
        simp only [List.getLast?_concat, Option.some.injEq] at hlast
        rw [← hlast, hscreen] at hm
        cases hm
        rw [hdecode] at hf
        cases hf

/-- A task that runs takes a step. -/
theorem taskStep (h : Stands setup t.cluster id w a t.position)
    (fits : a.Fits setup t.position false) (he : t.isEnded = false)
    (hslot : ∃ slot, w.slots.get? t.cluster = some slot ∧ slot.generation = t.generation)
    (step : TaskStep setup w id t w') : Advances setup id t w a w' := by
  have hp : t.position ≠ .ended := fun hp => by simp [Task.isEnded, hp] at he
  have hg : ¬ a.Garbled setup := fun hg => hp (fits.garbled hg)
  cases step with
  | @parked p hclear =>
    have hfollows : a.Follows p := by
      rw [← Attempt.follows_clear, hclear, Attempt.follows_clear]
      exact fits.follows
    have hstream : p.stream? = t.position.stream? := by
      rw [← Position.stream?_clear, hclear, Position.stream?_clear]
    have hend : p ≠ .ended := fun hend => hp (Position.clear_eq_ended.1 (by rw [← hclear, hend]; rfl))
    exact ⟨a, p, h.moveTask p, .on hfollows fits.messages hg hend, .calm rfl rfl hstream (.refl _)⟩
  | refused hpos hopen =>
    have hphase := fits.follows
    rw [hpos] at hphase
    exact h.refused hphase (by rw [hpos]; rfl) hopen
  | opened hpos hopen =>
    have hphase := fits.follows
    rw [hpos] at hphase
    exact h.opened hphase (by rw [hpos]; rfl) hopen
  | passed hpos => exact h.passed fits hpos hslot
  | called hpos => exact h.called fits hpos
  | unread hpos hread =>
    have haside := readFields_aside w (.task id) (registryKey t.cluster)
    rw [hread] at haside
    exact (h.edits (.aside haside)).returned fits hpos haside.store _
  | read hpos hread =>
    have haside := readFields_aside w (.task id) (registryKey t.cluster)
    rw [hread] at haside
    have hfollows := fits.follows
    rw [hpos] at hfollows
    exact ⟨a, _, (h.edits (.aside haside)).moveTask _, .on hfollows fits.messages hg (by simp),
      .calm rfl rfl (by rw [hpos]; rfl) haside.store⟩
  | @replaced s pass l g rest fields hpos =>
    have haside := Aside.updateCache w t.cluster fun m => m.replace (addressesOf fields)
    exact (h.edits (.aside haside)).returned fits hpos haside.store none
  | returned hpos => exact h.returned fits hpos (.refl _) _
  | @acted s pass l name label act more fault rest v p hpos hbegin =>
    have hdoing : Edits setup w (w.note (.doing name label)) := .aside (.note w rfl)
    have hedits := @begin_edits setup (w.note (.doing name label)) (.task id) act
    rw [hbegin] at hedits
    exact (h.edits (hdoing.trans hedits)).settled fits hpos (hdoing.trans hedits).store p
  | @resumed s pass l name label stage more fault rest v p hpos hresume =>
    have hedits := resume_edits hresume
    exact (h.edits hedits).settled fits hpos hedits.store p
  | woken hpos hn hv => exact h.woken fits hpos hv
  | received hpos hn hnext => exact h.received fits hpos hnext
  | closed hpos hn hnext hr =>
    refine h.ceased fits hpos hnext ?_ _
    rcases hr with ⟨hr, -⟩ | ⟨n, hr, -⟩
    · exact .inl hr
    · exact .inr ⟨n, hr⟩
  | retried hpos hd =>
    have hphase := fits.follows
    rw [hpos] at hphase
    have hcount : Stands setup t.cluster id (w.count .subscriptionRestarts) a t.position :=
      h.same rfl rfl rfl
    exact ⟨a, _, hcount.moveTask _, .on hphase fits.messages hg (by simp),
      .calm rfl rfl (by rw [hpos]; rfl) (.refl _)⟩

theorem stopTask_task (ht : w.tasks[id]? = some t) :
    (w.stopTask id t).tasks[id]? = some { t with position := .ended } := by
  have stop : ∀ {v : World}, v.tasks = w.tasks →
      ((v.closeStream t).finishTask id t .stopped).tasks[id]? = some { t with position := .ended } := by
    intro v hv
    have hclose : (v.closeStream t).tasks = v.tasks := by
      unfold closeStream
      split <;> rfl
    simp [World.finishTask, World.note, World.moveTask, updateTask,
      (publish_others _ _ _ _).1, hclose, hv, ht]
  unfold World.stopTask
  dsimp only
  split
  · exact stop (abandon_aside w (.task id) _).tasks
  · exact stop rfl

/-- A cancelled task stops. -/
theorem stopped (h : Stands setup t.cluster id w a t.position) :
    Stands setup t.cluster id (w.stopTask id t) a .ended ∧
      Flow (registryKey t.cluster) a t.position w.store a .ended (w.stopTask id t).store := by
  have stop : ∀ {v : World}, Aside w v → Stands setup t.cluster id
      ((v.closeStream t).finishTask id t .stopped) a .ended ∧
      Flow (registryKey t.cluster) a t.position w.store a .ended
        ((v.closeStream t).finishTask id t .stopped).store := by
    intro v hv
    have hclose : Stands setup t.cluster id (v.closeStream t) a t.position := by
      unfold closeStream
      split
      · exact (h.edits (.aside hv)).same rfl rfl rfl
      · exact h.edits (.aside hv)
    refine ⟨hclose.finishTask (by simp), ?_⟩
    rw [finishTask_store, closeStream_store]
    cases hs : t.position.stream? with
    | some s => exact flow_left hs rfl rfl rfl (.inl rfl) hv.store
    | none =>
      refine .calm rfl rfl (by rw [hs]; rfl) ?_
      simp only [left, hs]
      exact hv.store
  unfold World.stopTask
  dsimp only
  split
  · exact stop (abandon_aside w (.task id) _)
  · exact stop (.refl w)

end Stands

/-! ## Runs -/

/-- All that the record tells of the tasks of a client. -/
structure Recorded (setup : Setup) (w : World) : Prop where
  booked : Booked w
  unmarked : ∀ id, w.tasks[id]? = none → ∀ m ∈ w.trace, m.owner? ≠ some id
  laws : ∀ id t, w.tasks[id]? = some t → Laws setup t.cluster id w.trace
  fits : ∀ id t, w.tasks[id]? = some t →
    (attempt setup t.cluster id w.trace).Fits setup t.position t.cancelled

/-- What a move of a client does to its tasks and to the store. -/
inductive Shift (setup : Setup) (w w' : World) : Prop where
  | others (h : ∀ id, Elsewhere id w w') (hm : w.store.Calm w'.store)
  | own {id : Nat} {t t' : Task} (ht : w.tasks[id]? = some t) (ht' : w'.tasks[id]? = some t')
      (hc : t'.cluster = t.cluster) (h : ∀ j, id ≠ j → Elsewhere j w w')
      (flow : Flow (registryKey t.cluster) (attempt setup t.cluster id w.trace) t.position w.store
        (attempt setup t.cluster id w'.trace) t'.position w'.store)

namespace Recorded

variable {setup : Setup} {w w' : World} {id : Nat} {t : Task}

theorem start (store : Memory) : Recorded setup { store } where
  booked := .start store
  unmarked _ _ m hm := by simp at hm
  laws id t ht := by simp at ht
  fits id t ht := by simp at ht

theorem store (h : Recorded setup w) (store : Memory) : Recorded setup { w with store } :=
  ⟨h.booked.same rfl rfl, h.unmarked, h.laws, h.fits⟩

/-- What the record tells of a task that others leave alone. -/
theorem elsewhere (h : Recorded setup w) (e : Elsewhere id w w') :
    (w'.tasks[id]? = none → ∀ m ∈ w'.trace, m.owner? ≠ some id) ∧
    ∀ t', w'.tasks[id]? = some t' → Laws setup t'.cluster id w'.trace ∧
      (attempt setup t'.cluster id w'.trace).Fits setup t'.position t'.cancelled := by
  obtain ⟨ms, hm, hms⟩ := e.trace
  have unmarked : w.tasks[id]? = none → ∀ m ∈ w'.trace, m.owner? ≠ some id := by
    intro hnone m hmem
    rw [hm] at hmem
    rcases List.mem_append.1 hmem with hmem | hmem
    · exact hms m hmem
    · exact h.unmarked id hnone m hmem
  cases ht : w.tasks[id]? with
  | none =>
    refine ⟨fun _ => unmarked ht, fun t' ht' => ?_⟩
    obtain ⟨ha, hl⟩ := @attempt_unmarked setup t'.cluster id _ (unmarked ht)
    refine ⟨hl, ?_⟩
    rw [ha, e.fresh ht t' ht']
    exact ⟨rfl, rfl, fun hg => absurd hg (Attempt.not_garbled_of_nil rfl), fun hp => by cases hp⟩
  | some t =>
    obtain ⟨u, hu, hc, hp, hcan⟩ := e.task t ht
    refine ⟨fun hnone => (by simp [hnone] at hu), fun t' ht' => ?_⟩
    rw [hu] at ht'
    cases ht'
    obtain ⟨ha, hl⟩ := @attempt_append setup t.cluster id w.trace _ hms
    rw [hc, hp, hm, ha]
    exact ⟨hl (h.laws id t ht), (h.fits id t ht).mono hcan⟩

theorem others (h : Recorded setup w) (hb : Booked w') (e : ∀ id, Elsewhere id w w') :
    Recorded setup w' :=
  ⟨hb, fun id => (h.elsewhere (e id)).1, fun id t' ht' => ((h.elsewhere (e id)).2 t' ht').1,
    fun id t' ht' => ((h.elsewhere (e id)).2 t' ht').2⟩

/-- One task steps, and the others are left alone. -/
theorem own (h : Recorded setup w) (ht : w.tasks[id]? = some t) {a : Attempt} {p : Position}
    (hst : Stands setup t.cluster id w' a p) (e : ∀ j, id ≠ j → Elsewhere j w w')
    (hfits : ∀ t', w'.tasks[id]? = some t' → t'.position = p → a.Fits setup p t'.cancelled)
    (flow : Flow (registryKey t.cluster) (attempt setup t.cluster id w.trace) t.position w.store
      a p w'.store) : Recorded setup w' ∧ Shift setup w w' := by
  obtain ⟨u, hu, hc, hp⟩ := hst.task
  refine ⟨⟨hst.booked, fun j => ?_, fun j t' ht' => ?_, fun j t' ht' => ?_⟩, ?_⟩
  · by_cases hj : id = j
    · subst hj
      intro hnone
      rw [hnone] at hu
      cases hu
    · exact (h.elsewhere (e j hj)).1
  · by_cases hj : id = j
    · subst hj
      rw [hu] at ht'
      cases ht'
      exact hc ▸ hst.laws
    · exact ((h.elsewhere (e j hj)).2 t' ht').1
  · by_cases hj : id = j
    · subst hj
      have hf := hfits u hu hp
      rw [hu] at ht'
      cases ht'
      rw [hc, hst.record, hp]
      exact hf
    · exact ((h.elsewhere (e j hj)).2 t' ht').2
  · refine .own ht hu hc e ?_
    rw [hst.record, hp]
    exact flow

/-- A task as it stands by the record. -/
theorem stands (h : Recorded setup w) (ht : w.tasks[id]? = some t) :
    Stands setup t.cluster id w (attempt setup t.cluster id w.trace) t.position :=
  ⟨⟨t, ht, rfl, rfl⟩, rfl, h.laws id t ht, h.booked⟩

theorem move {m : Move} (h : Recorded setup w) (hsup : Supervised w)
    (hm : w.move setup m = some w') : Recorded setup w' ∧ Shift setup w w' := by
  have hb := h.booked.move hm
  cases move_cases hm with
  | edits he => exact ⟨h.others hb fun _ => .edits he, .others (fun _ => .edits he) he.store⟩
  | @cleared id t ht =>
    refine h.own ht ((h.stands ht).moveTask t.position.clear)
      (fun j hj => .updateTask w id _ fun he => absurd he hj) (fun t' ht' hp' => ?_)
      (.calm rfl rfl (Position.stream?_clear _) (.refl _))
    have hcan : t'.cancelled = t.cancelled := by
      simp only [moveTask, updateTask, List.getElem?_modify_eq, ht] at ht'
      cases ht'
      rfl
    have hf := h.fits id t ht
    rw [hcan]
    exact ⟨Attempt.follows_clear.2 hf.follows, hf.messages,
      fun hg => Position.clear_eq_ended.2 (hf.garbled hg),
      fun hp => hf.ended (Position.clear_eq_ended.1 hp)⟩
  | @stopped id t ht he hc =>
    obtain ⟨hst, hflow⟩ := (h.stands ht).stopped
    refine h.own ht hst (fun j hj => .finishes hj (@stopTask_finishes id t w))
      (fun t' ht' _ => ?_) hflow
    have hf := h.fits id t ht
    rw [Stands.stopTask_task ht] at ht'
    cases ht'
    exact ⟨trivial, hf.messages, fun _ => rfl, fun _ => .inr hc⟩
  | @went id t w' ht he hc hstep =>
    have hcan : (attempt setup t.cluster id w.trace).Fits setup t.position false :=
      hc ▸ h.fits id t ht
    obtain ⟨ch, s, hch, -, -, hslot, hg, -⟩ := hsup.handle (hsup.held (charge?_of_task ht) he hc)
    cases (charge?_of_task ht).symm.trans hch
    obtain ⟨a, p, hst, hfits, hflow⟩ := (h.stands ht).taskStep hcan he ⟨s, hslot, hg⟩ hstep
    exact h.own ht hst (fun j hj => .turn hj (hstep.turn he))
      (fun t' _ _ => hfits.mono (by simp)) hflow

end Recorded

end World

end Muster
