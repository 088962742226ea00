import Muster.Proofs.CacheRefills

/-!
# When a call answers

A call answers in the move with which it begins or in one with which it goes on; a listener's
actions are calls like those of a user (`Answers`). A view that is answered shows the cache of a
loaded cluster and its status just then (`Shows`).
-/
namespace Muster

namespace World

variable {setup : Setup} {w v w' : World} {m : Move} {who : Actor} {x : View} {r : Answer}

/-- A move lets a call answer, and what the client is then. -/
inductive Answers (setup : Setup) (w : World) : Move → Answer → World → Prop where
  | asked {id : Nat} {a : Action} {r : Answer} {v : World}
      (h : (w.note (.asked id a)).begin setup (.call id) a = (v, .finished r)) :
      Answers setup w (.ask id a) r v
  | called {id : Nat} {stage : Stage} {r : Answer} {v : World} (hs : w.calls.get? id = some stage)
      (h : w.resume setup (.call id) stage = some (v, .finished r)) :
      Answers setup w (.step (.call id)) r v
  | acted {id s : Nat} {t : Task} {pass : Pass} {l : Listener} {name label : String} {a : Action}
      {more : List (String × Action)} {fault : Option Fault} {rest : List Listener} {r : Answer}
      {v : World} (ht : w.tasks[id]? = some t) (hc : t.cancelled = false)
      (hp : t.position = .calling s pass l (.acting name ((label, a) :: more) fault) rest)
      (h : (w.note (.doing name label)).begin setup (.task id) a = (v, .finished r)) :
      Answers setup w (.step (.task id)) r v
  | resumed {id s : Nat} {t : Task} {pass : Pass} {l : Listener} {name label : String}
      {stage : Stage} {more : List (String × Action)} {fault : Option Fault} {rest : List Listener}
      {r : Answer} {v : World} (ht : w.tasks[id]? = some t) (hc : t.cancelled = false)
      (hp : t.position = .calling s pass l (.awaiting name label stage more fault) rest)
      (h : w.resume setup (.task id) stage = some (v, .finished r)) :
      Answers setup w (.step (.task id)) r v

/-- The rest of the move only passes the answer on. -/
theorem Answers.settles (h : Answers setup w m r v) (hm : w.move setup m = some w') :
    w'.caches = v.caches ∧ w'.slots = v.slots := by
  cases h with
  | @asked id a r v h =>
    simp only [move] at hm
    split at hm
    · cases hm
    · cases hm
      simp only [ask, h]
      exact ⟨rfl, rfl⟩
  | called hs h =>
    simp only [move, step, stepCall, hs, h, Option.map_some, Option.some.injEq] at hm
    cases hm
    exact ⟨rfl, rfl⟩
  | acted ht hc hp h =>
    simp only [move, step, ht, Option.bind_some, stepTask, Task.isEnded, hp, hc, advanceTask,
      resumeCallback, h] at hm
    cases hm
    exact ⟨rfl, rfl⟩
  | resumed ht hc hp h =>
    simp only [move, step, ht, Option.bind_some, stepTask, Task.isEnded, hp, hc, advanceTask,
      resumeCallback, h] at hm
    cases hm
    exact ⟨rfl, rfl⟩

/-! ## Views -/

/-- The view is that of a loaded cluster. -/
structure Shows (w : World) (x : View) : Prop where
  addresses : x.addresses = Address.sort (w.caches.entry x.cluster).members
  status : x.status = (w.status? x.cluster).getD .stopped
  loaded : w.cell x.cluster = .loaded

theorem loadedAnswer_shows {load : Load} (hc : w.cell load.cluster = .loaded)
    (h : w.loadedAnswer load = .view x) : w.Shows x := by
  unfold loadedAnswer at h
  dsimp only at h
  split at h
  · cases h
    exact ⟨rfl, rfl, hc⟩
  · cases h

theorem finishLoad_shows {load : Load} (h : w.finishLoad load = (v, .finished (.view x))) :
    v.Shows x := by
  simp only [finishLoad, Prod.mk.injEq, Progress.finished.injEq] at h
  obtain ⟨rfl, h⟩ := h
  exact loadedAnswer_shows (by rw [cell, cell_updateCell, if_pos rfl]) h

theorem awaitStart_shows {load : Load} (h : w.awaitStart load = (v, .finished (.view x))) :
    v.Shows x := by
  unfold awaitStart at h
  split at h
  · split at h
    · exact finishLoad_shows h
    · cases h
  · exact finishLoad_shows h

theorem beginLoad_shows {key : String} {view : Bool}
    (h : w.beginLoad setup who key view = (v, .finished (.view x))) : v.Shows x := by
  unfold beginLoad at h
  split at h
  · cases h
  · dsimp only at h
    split at h
    · cases h
    · split at h
      · next hc =>
        simp only [Prod.mk.injEq, Progress.finished.injEq] at h
        obtain ⟨rfl, h⟩ := h
        refine loadedAnswer_shows ?_ h
        exact hc
      · split at h <;> cases h
      · cases h

theorem sendAll_answer {key : String} {ms : List String} {n : Nat} :
    (w.sendAll key n ms).2 ≠ .view x := by
  induction ms generalizing w n with
  | nil => simp [sendAll]
  | cons m rest ih =>
    unfold sendAll
    split
    · simp
    · exact ih

/-- Only lookups answer with a view. -/
theorem begin_shows {a : Action} (h : w.begin setup who a = (v, .finished (.view x))) :
    v.Shows x := by
  cases a with
  | lookup key => exact beginLoad_shows h
  | view key => exact beginLoad_shows h
  | register text | unregister text =>
    simp only [begin, beginChange] at h
    split at h
    · cases h
    · split at h
      · cases h
      · split at h <;> cases h
  | «attach» c l =>
    simp only [begin, Prod.mk.injEq, Progress.finished.injEq] at h
    cases hr : (w.attach setup c (.user l)).1 <;> rw [hr] at h <;> cases h.2
  | detach c l guarded =>
    simp only [begin, beginDetach] at h
    split at h
    · cases h
    · split at h <;> cases h
  | awaitSettled c | awaitStarted c =>
    simp only [begin, beginWatch] at h
    split at h
    · cases h
    · split at h <;> cases h
  | shutdown =>
    simp only [begin, drain] at h
    split at h <;> cases h
  | send key ms =>
    simp only [begin, Prod.mk.injEq, Progress.finished.injEq] at h
    exact absurd h.2 sendAll_answer
  | putField key field value | dropField key field | readHash key =>
    simp only [begin] at h
    split at h <;> cases h
  | _ => cases h

theorem throughGate_shows {method : Method} {g : Gate} {hold : Stage} {go : World × Progress}
    (h : w.throughGate method g hold go = some (v, .finished (.view x))) :
    go = (v, .finished (.view x)) := by
  unfold throughGate at h
  split at h <;> cases h
  rfl

theorem resume_shows {stage : Stage}
    (h : w.resume setup who stage = some (v, .finished (.view x))) : v.Shows x := by
  cases stage with
  | writing e g =>
    have h := throughGate_shows h
    unfold write at h
    dsimp only at h
    split at h <;> cases h
  | announcing e g =>
    have h := throughGate_shows h
    unfold announce at h
    split at h <;> cases h
  | queued load =>
    simp only [resume] at h
    split at h
    · next hc =>
      simp only [Option.some.injEq, Prod.mk.injEq, Progress.finished.injEq] at h
      obtain ⟨rfl, h⟩ := h
      exact loadedAnswer_shows hc h
    · split at h <;> cases h
    · cases h
  | reading load g =>
    have h := throughGate_shows h
    unfold read at h
    split at h <;> cases h
  | replied load fields g =>
    have h := throughGate_shows h
    unfold takeSnapshot at h
    dsimp only at h
    split at h
    · cases h
    · exact awaitStart_shows h
  | starting load seen =>
    simp only [resume] at h
    split at h
    · split at h
      · cases h
      · exact awaitStart_shows (Option.some.inj h)
    · cases h
  | watching c goal seen =>
    simp only [resume, beginWatch] at h
    split at h
    · split at h
      · cases h
      · split at h
        · cases h
        · split at h <;> cases h
    · cases h
  | joining id =>
    simp only [resume] at h
    split at h <;> cases h
  | draining ids =>
    simp only [resume, drain] at h
    split at h
    · split at h
      · split at h <;> cases h
      · cases h
    · cases h

theorem Answers.shows (h : Answers setup w m (.view x) v) (hm : w.move setup m = some w') :
    w'.Shows x := by
  have hv : v.Shows x := by
    cases h with
    | asked h => exact begin_shows h
    | called _ h => exact resume_shows h
    | acted _ _ _ h => exact begin_shows h
    | resumed _ _ _ h => exact resume_shows h
  obtain ⟨hcaches, hslots⟩ := h.settles hm
  exact ⟨by rw [hcaches]; exact hv.addresses, by rw [status?, hslots]; exact hv.status,
    by rw [cell, hcaches]; exact hv.loaded⟩

end World

end Muster
