import Muster.Proofs.Calls

/-!
# Lookups

A lookup of a cluster that is not loaded either loads it or waits for another one's load (`Post`).
How it begins and goes on is told by `Enters` and `Proceeds`. No other call touches a cell.
-/
namespace Muster

/-- What a lookup has to do with the cell of its cluster. -/
inductive Post where
  /-- It waits for another one's load. -/
  | waits (cluster : String)
  | loads (cluster : String)
deriving DecidableEq, Repr

namespace Stage

def post? : Stage → Option Post
  | queued load => some (.waits load.cluster)
  | reading load _ | replied load _ _ | starting load _ => some (.loads load.cluster)
  | _ => none

/-- The lookup that stands at a stage. -/
def load? : Stage → Option Load
  | queued load | reading load _ | replied load _ _ | starting load _ => some load
  | _ => none

theorem post?_clear (stage : Stage) : stage.clear.post? = stage.post? := by
  cases stage <;> rfl

theorem post?_of_load? {stage : Stage} (h : stage.load? = none) : stage.post? = none := by
  cases stage <;> first | rfl | cases h

/-- A lookup waits, or it has in mind to load. -/
theorem post?_loads {stage : Stage} {c : String} (h : stage.post? = some (.loads c)) :
    ∃ x, stage.intent? = some x ∧ x.load? = some c := by
  cases stage with
  | reading | replied | starting =>
    cases h
    exact ⟨_, rfl, rfl⟩
  | _ => cases h

end Stage

namespace Cell

variable {α : Type}

/-- Those who wait in line. -/
def line : Cell α → List α
  | loading _ line => line
  | _ => []

/-- The owner and those who wait in line. -/
def party : Cell α → List α
  | loading o line => o :: line
  | _ => []

theorem mem_party_of_owner? {cell : Cell α} {who : α} (h : cell.owner? = some who) :
    who ∈ cell.party := by
  cases cell <;> cases h
  exact List.mem_cons_self

theorem mem_party_of_line {cell : Cell α} {who : α} (h : who ∈ cell.line) : who ∈ cell.party := by
  cases cell with
  | loading o line => exact List.mem_cons_of_mem _ h
  | _ => cases h

theorem handOver_of_owner? [DecidableEq α] {cell : Cell α} {who : α} (h : cell.owner? = some who) :
    cell.handOver = cell.leave who := by
  cases cell <;> cases h
  exact (if_pos rfl).symm

end Cell

namespace World

variable {setup : Setup} {w v w' : World} {m : Move} {who : Actor} {p : Progress} {stage : Stage}
  {load : Load} {c : String} {a : Action}

def post? (w : World) (who : Actor) : Option Post := (w.stage? who).bind Stage.post?

theorem post?_of_clear (h : (v.stage? who).map Stage.clear = (w.stage? who).map Stage.clear) :
    v.post? who = w.post? who := by
  have cleared : ∀ o : Option Stage, o.bind Stage.post? = (o.map Stage.clear).bind Stage.post? := by
    intro o
    cases o <;> simp [Stage.post?_clear]
  rw [post?, post?, cleared, h, ← cleared]

/-- Whoever loads a cluster owns its cell. -/
theorem Kept.loads (h : Kept w) (hp : w.post? who = some (.loads c)) :
    (w.cell c).owner? = some who := by
  obtain ⟨stage, hst, hp⟩ := Option.bind_eq_some_iff.1 hp
  obtain ⟨x, hx, hl⟩ := Stage.post?_loads hp
  refine h.owner who x c ?_ hl
  rw [intent?_eq, hst]
  simpa [Stage.intent?_clear] using hx

/-! ## How a lookup begins -/

/-- What a lookup finds when it begins, and how far it comes. -/
inductive Enters (who : Actor) (load : Load) (w v : World) : Progress → Prop
  | served (hc : w.cell load.cluster = .loaded) (hv : ∀ c, v.cell c = w.cell c) :
      Enters who load w v (.finished (v.loadedAnswer load))
  | first (hc : w.cell load.cluster = .empty) (hv : v.cell load.cluster = .loading who [])
      (hcs : ∀ c, load.cluster ≠ c → v.cell c = w.cell c) :
      Enters who load w v (.paused (.reading load .arriving))
  | behind {o : Actor} {line : List Actor} (hc : w.cell load.cluster = .loading o line)
      (hv : v.cell load.cluster = .loading o (line ++ [who]))
      (hcs : ∀ c, load.cluster ≠ c → v.cell c = w.cell c) :
      Enters who load w v (.paused (.queued load))

theorem beginLoad_enters {key : String} {view : Bool} (hopen : w.closed = false)
    (hkey : setup.source.cluster? key = some c) (hnew : (w.cell c).owner? ≠ some who)
    (h : w.beginLoad setup who key view = (v, p)) :
    Enters who ⟨c, view⟩ w v p ∧ Aside w v ∧ v.store = w.store ∧ v.trace = w.trace ∧
      ∀ c', (v.caches.entry c').members = (w.caches.entry c').members := by
  unfold beginLoad at h
  rw [if_neg (by simp [hopen])] at h
  simp only [hkey] at h
  have haside : Aside w ((w.count .lookups).updateCell c (Cell.enter who)) :=
    (Aside.count w .lookups).trans (.updateCell _ c (Cell.enter who))
  have hcell : ∀ c', (((w.count .lookups).updateCell c (Cell.enter who)).caches.entry c').cell =
      if c = c' then (w.cell c').enter who else w.cell c' :=
    fun c' => cell_updateCell (w.count .lookups) c (Cell.enter who) c'
  have hmine := (hcell c).trans (if_pos rfl)
  have hothers : ∀ c', c ≠ c' →
      ((w.count .lookups).updateCell c (Cell.enter who)).cell c' = w.cell c' :=
    fun c' hne => (hcell c').trans (if_neg hne)
  have hmembers := members_updateCell (w.count .lookups) c (Cell.enter who)
  cases hc : w.cell c with
  | empty =>
    rw [hc] at hmine
    simp only [hmine, Cell.enter, if_pos] at h
    cases h
    exact ⟨.first hc hmine hothers, haside, rfl, rfl, hmembers⟩
  | loading o line =>
    have hne : o ≠ who := fun heq => hnew (by rw [hc, heq]; rfl)
    rw [hc] at hmine
    simp only [hmine, Cell.enter, if_neg hne] at h
    cases h
    exact ⟨.behind hc hmine hothers, haside, rfl, rfl, hmembers⟩
  | loaded =>
    rw [hc] at hmine
    simp only [hmine, Cell.enter] at h
    cases h
    refine ⟨.served hc fun c' => ?_, haside, rfl, rfl, hmembers⟩
    by_cases hc' : c = c'
    · subst hc'
      exact hmine.trans hc.symm
    · exact hothers c' hc'

/-- An action that is no lookup touches no cell and becomes no lookup. -/
theorem begin_beside (ha : ∀ key, a ≠ .lookup key ∧ a ≠ .view key)
    (h : w.begin setup who a = (v, p)) :
    v.caches = w.caches ∧ p.stage?.bind Stage.post? = none := by
  have same : ∀ {u : World} {q : Progress}, (u, q) = (v, p) → u.caches = w.caches →
      q.stage?.bind Stage.post? = none →
      v.caches = w.caches ∧ p.stage?.bind Stage.post? = none := by
    intro u q heq hu hq
    cases heq
    exact ⟨hu, hq⟩
  have changed : ∀ kind text, w.beginChange kind text = (v, p) →
      v.caches = w.caches ∧ p.stage?.bind Stage.post? = none := by
    intro kind text h
    unfold beginChange at h
    split at h
    · exact same h rfl rfl
    · split at h
      · exact same h rfl rfl
      · split at h <;> exact same h rfl rfl
  have watched : ∀ c goal, w.beginWatch c goal = (v, p) →
      v.caches = w.caches ∧ p.stage?.bind Stage.post? = none := by
    intro c goal h
    unfold beginWatch at h
    split at h
    · exact same h rfl rfl
    · split at h <;> exact same h rfl rfl
  cases a with
  | lookup key => exact absurd rfl (ha key).1
  | view key => exact absurd rfl (ha key).2
  | register text => exact changed .register text h
  | unregister text => exact changed .unregister text h
  | awaitSettled c => exact watched c .settled h
  | awaitStarted c => exact watched c .started h
  | «attach» c l => exact same h (Beside.attach w c l).caches rfl
  | detach c l guarded =>
    have hcaches := (Beside.detach w c (.user l)).caches
    simp only [begin, beginDetach] at h
    split at h
    · exact same h rfl rfl
    · split at h <;> next hd =>
        rw [hd] at hcaches
        exact same h hcaches rfl
  | shutdown =>
    simp only [begin, drain] at h
    split at h <;> exact same h rfl rfl
  | send key ms => exact same h (Beside.sendAll key ms w 0).caches rfl
  | putField key field value =>
    simp only [begin] at h
    split at h <;> exact same h rfl rfl
  | dropField key field =>
    simp only [begin] at h
    split at h <;> exact same h rfl rfl
  | readHash key =>
    simp only [begin] at h
    split at h <;> exact same h rfl rfl
  | _ => exact same h rfl rfl

/-- What an action does to cells: a lookup enters the one of its cluster. -/
theorem begin_enters (hnew : ∀ c, (w.cell c).owner? ≠ some who)
    (h : w.begin setup who a = (v, p)) :
    (∃ load, Enters who load w v p) ∨
    (∀ c, v.cell c = w.cell c) ∧ p.stage?.bind Stage.post? = none := by
  -- A lookup that is refused, or finds no cluster, is over before it comes to a cell.
  have looked : ∀ key view, w.beginLoad setup who key view = (v, p) →
      (∃ load, Enters who load w v p) ∨
      (∀ c, v.cell c = w.cell c) ∧ p.stage?.bind Stage.post? = none := by
    intro key view h
    cases hopen : w.closed with
    | true =>
      rw [beginLoad, if_pos hopen] at h
      cases h
      exact .inr ⟨fun _ => rfl, rfl⟩
    | false =>
      cases hkey : setup.source.cluster? key with
      | none =>
        rw [beginLoad, if_neg (by simp [hopen]), hkey] at h
        cases h
        exact .inr ⟨fun _ => rfl, rfl⟩
      | some c => exact .inl ⟨_, (beginLoad_enters hopen hkey (hnew c) h).1⟩
  by_cases ha : ∃ key, a = .lookup key ∨ a = .view key
  · obtain ⟨key, rfl | rfl⟩ := ha
    · exact looked key false h
    · exact looked key true h
  · obtain ⟨hcaches, hpost⟩ :=
      begin_beside (fun key => ⟨fun heq => ha ⟨key, .inl heq⟩, fun heq => ha ⟨key, .inr heq⟩⟩) h
    exact .inr ⟨fun c => by rw [cell, hcaches, cell], hpost⟩

/-! ## How a lookup goes on -/

/-- What becomes of a lookup that goes on. -/
inductive Proceeds (who : Actor) (load : Load) (stage : Stage) (w v : World) : Progress → Prop
  /-- It loads, or goes on loading. -/
  | on {next : Stage} (hn : next.post? = some (.loads load.cluster)) (hl : next.load? = some load)
      (hp : stage.post? = some (.loads load.cluster) ∨ stage = .queued load ∧
        (w.cell load.cluster).owner? = some who)
      (hc : ∀ c, v.cell c = w.cell c)
      (ha : Aside w v ∨ ∃ seen, next = .starting load seen) :
      Proceeds who load stage w v (.paused next)
  /-- Somebody else has loaded the cluster. -/
  | served (hp : stage = .queued load) (hc : w.cell load.cluster = .loaded) (hv : v = w) :
      Proceeds who load stage w v (.finished (w.loadedAnswer load))
  | failed {f : Fault} (hp : stage.post? = some (.loads load.cluster))
      (hs : ∀ seen, stage ≠ .starting load seen)
      (hc : v.cell load.cluster = (w.cell load.cluster).handOver)
      (hcs : ∀ c, load.cluster ≠ c → v.cell c = w.cell c) (ha : Aside w v) :
      Proceeds who load stage w v (.finished (.failed f))
  | loaded (hp : stage.post? = some (.loads load.cluster)) (hc : v.cell load.cluster = .loaded)
      (hcs : ∀ c, load.cluster ≠ c → v.cell c = w.cell c) :
      Proceeds who load stage w v (.finished (v.loadedAnswer load))

theorem awaitStart_proceeds (hu : ∀ c, v.cell c = w.cell c)
    (hp : stage.post? = some (.loads load.cluster)) :
    Proceeds who load stage w (v.awaitStart load).1 (v.awaitStart load).2 := by
  rcases awaitStart_cases v load with heq | ⟨seen, heq⟩ <;> rw [heq]
  · have hcell : ∀ c, (v.finishLoad load).1.cell c = if load.cluster = c then .loaded else v.cell c :=
      fun c => cell_updateCell v _ _ c
    exact .loaded hp ((hcell _).trans (if_pos rfl))
      fun c hne => ((hcell c).trans (if_neg hne)).trans (hu c)
  · exact .on rfl rfl (.inl hp) hu (.inr ⟨seen, rfl⟩)

theorem failLoad_proceeds {f : Fault} (hu : ∀ c, v.cell c = w.cell c) (ha : Aside w v)
    (hp : stage.post? = some (.loads load.cluster)) (hs : ∀ seen, stage ≠ .starting load seen) :
    Proceeds who load stage w (v.failLoad load f).1 (v.failLoad load f).2 := by
  have hcell : ∀ c, (v.failLoad load f).1.cell c =
      if load.cluster = c then (v.cell c).handOver else v.cell c := fun c => cell_updateCell v _ _ c
  refine .failed hp hs ?_ (fun c hne => ?_) (ha.trans (failLoad_aside v load f))
  · rw [hcell, if_pos rfl, hu]
  · rw [hcell, if_neg hne, hu]

theorem read_proceeds (hp : stage.post? = some (.loads load.cluster))
    (hs : ∀ seen, stage ≠ .starting load seen) :
    Proceeds who load stage w (w.read who load).1 (w.read who load).2 := by
  have haside := readFields_aside w who (registryKey load.cluster)
  have hbeside : Beside w (w.readFields who (registryKey load.cluster)).2 := .perform w who _ _
  unfold read
  split
  · next hr =>
    rw [hr] at haside hbeside
    exact failLoad_proceeds hbeside.cell haside hp hs
  · next hr =>
    rw [hr] at haside hbeside
    exact .on rfl rfl (.inl hp) hbeside.cell (.inl haside)

/-- After a shutdown no updater is attached. -/
theorem takeSnapshot_of_closed (setup : Setup) (hclosed : w.closed = true) (load : Load)
    (fields : List (String × String)) : ∃ u f, Aside w u ∧
      u.caches = (w.caches.update load.cluster fun m => m.replace (addressesOf fields)) ∧
      w.takeSnapshot setup load fields = u.failLoad load f := by
  refine ⟨{ (w.updateCache load.cluster fun m => m.replace (addressesOf fields)) with
    updaters := w.updaters + 1 }, .shutdown, .quiet rfl rfl rfl rfl rfl rfl rfl, rfl, ?_⟩
  unfold takeSnapshot World.attach
  simp only [show (w.updateCache load.cluster fun m => m.replace (addressesOf fields)).closed = true
    from hclosed, if_true]
  rfl

theorem takeSnapshot_proceeds (hsup : Supervised w) (fields : List (String × String))
    (hp : stage.post? = some (.loads load.cluster)) (hs : ∀ seen, stage ≠ .starting load seen) :
    Proceeds who load stage w (w.takeSnapshot setup load fields).1
      (w.takeSnapshot setup load fields).2 := by
  obtain ⟨u, -, -, -, hcaches, -, ⟨f, hclosed, -, -⟩ | ⟨-, -, -, -, heq⟩⟩ :=
    takeSnapshot_cases setup hsup load fields
  · obtain ⟨u, f, ha, hcaches, heq⟩ := takeSnapshot_of_closed setup hclosed load fields
    rw [heq]
    exact failLoad_proceeds (cell_replace hcaches) ha hp hs
  · rw [heq]
    exact awaitStart_proceeds (cell_replace hcaches) hp

/-- A lookup that goes on loads, or has an outcome. -/
theorem resume_proceeds (hsup : Supervised w) (hl : stage.load? = some load)
    (h : w.resume setup who stage = some (v, p)) : Proceeds who load stage w v p := by
  -- A lookup that is held up before its command, or before the reply, goes on loading.
  have gate : ∀ {m : Method} {g : Gate} {hold : Stage} {go : World × Progress},
      w.throughGate m g hold go = some (v, p) → stage.post? = some (.loads load.cluster) →
      hold.post? = some (.loads load.cluster) → hold.load? = some load →
      Proceeds who load stage w go.1 go.2 → Proceeds who load stage w v p := by
    intro m g hold go hgate hp hpost hload hgo
    rcases throughGate_cases hgate with hr | hr
    · cases hr
      exact .on hpost hload (.inl hp) (fun _ => rfl) (.inl (.refl w))
    · subst hr
      exact hgo
  cases stage with
  | queued =>
    cases hl
    simp only [resume] at h
    split at h
    · next hc =>
      cases h
      exact .served rfl hc rfl
    · next hc =>
      split at h
      · next ho =>
        cases h
        refine .on rfl rfl (.inr ⟨rfl, ?_⟩) (fun _ => rfl) (.inl (.refl w))
        rw [cell, hc, ← ho]
        rfl
      · cases h
    · cases h
  | reading _ g =>
    cases hl
    exact gate h rfl rfl rfl (read_proceeds rfl (by simp))
  | replied _ fields g =>
    cases hl
    exact gate h rfl rfl rfl (takeSnapshot_proceeds hsup fields rfl (by simp))
  | starting _ seen =>
    cases hl
    simp only [resume] at h
    split at h
    · split at h
      · cases h
      · have hr : w.awaitStart load = (v, p) := Option.some.inj h
        have hadv : Proceeds who load (.starting load seen) w (w.awaitStart load).1
            (w.awaitStart load).2 := awaitStart_proceeds (fun _ => rfl) rfl
        rw [hr] at hadv
        exact hadv
    · cases h
  | _ => cases hl

/-- Other calls that go on touch no cache and become no lookups. -/
theorem resume_beside (hl : stage.load? = none) (h : w.resume setup who stage = some (v, p)) :
    v.caches = w.caches ∧ p.stage?.bind Stage.post? = none := by
  have same : ∀ {u : World} {q : Progress}, (u, q) = (v, p) → u.caches = w.caches →
      q.stage?.bind Stage.post? = none →
      v.caches = w.caches ∧ p.stage?.bind Stage.post? = none := by
    intro u q heq hu hq
    cases heq
    exact ⟨hu, hq⟩
  have gate : ∀ {m : Method} {g : Gate} {hold : Stage} {go : World × Progress},
      w.throughGate m g hold go = some (v, p) → hold.post? = none → go.1.caches = w.caches →
      go.2.stage?.bind Stage.post? = none →
      v.caches = w.caches ∧ p.stage?.bind Stage.post? = none := by
    intro m g hold go hgate hhold hcaches hpost
    rcases throughGate_cases hgate with hr | hr
    · exact same hr.symm rfl hhold
    · exact same (u := go.1) (q := go.2) hr.symm hcaches hpost
  cases stage with
  | writing e g =>
    have hset := (Beside.perform w who (.setField setup.config.ownKey e.address.text
      setup.config.identity) fun s => (s.setField setup.config.ownKey e.address.text
        setup.config.identity).map ((), ·)).caches
    have hdel := (Beside.perform w who (.deleteField setup.config.ownKey e.address.text)
      fun s => s.deleteField setup.config.ownKey e.address.text).caches
    refine gate h rfl ?_ ?_
    · unfold write
      cases e.kind <;> dsimp only <;> split <;> assumption
    · unfold write
      cases e.kind <;> dsimp only <;> split <;> rfl
  | announcing e g =>
    have hcaches := (Beside.perform w who (.publish setup.config.ownKey e.encode)
      fun s => s.publish setup.config.ownKey e.encode).caches
    refine gate h rfl ?_ ?_
    · unfold announce publishMessage
      split <;> next hp => rw [hp] at hcaches; exact hcaches
    · unfold announce
      split <;> rfl
  | watching c goal seen =>
    simp only [resume, beginWatch] at h
    split at h
    · split at h
      · cases h
      · have hr := Option.some.inj h
        split at hr
        · exact same hr rfl rfl
        · split at hr <;> exact same hr rfl rfl
    · cases h
  | joining id =>
    obtain ⟨rfl, -, rfl⟩ := joining_ends h
    exact ⟨rfl, rfl⟩
  | draining ids =>
    simp only [resume, drain] at h
    split at h
    · split at h
      · have hr := Option.some.inj h
        split at hr <;> exact same hr rfl rfl
      · cases h
    · exact same (Option.some.inj h) rfl rfl
  | _ => cases hl

end World

end Muster
