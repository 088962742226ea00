import Muster.CommandLine.Watch
import Muster.Proofs.CacheAhead
import Muster.Proofs.Authors
import Muster.Proofs.Convergence

/-!
# What a watch follows

The loop of a watch is woken by messages only. A message that is applied while the notifier stands
behind the updater in the audience reaches the notifier, unless the delivery is broken off
(`told_or_slipped`). So when the loop has taken all messages, the view that it printed last is
current, unless the set changed in one of three ways that nobody is told of (`Unheard`). The
synchronisation after a cut of the stream is one of them.
-/
namespace Muster

/-! ## Who is still to be told -/

/-- In the delivery that the task is making, the listener's turn is still to come. -/
def Position.Promises (x : Listener) : Position → Prop
  | .passing _ (.delivery _) rest | .calling _ (.delivery _) _ _ rest => x ∈ rest
  | _ => False

theorem Position.promises_clear {x : Listener} {p : Position} :
    p.clear.Promises x ↔ p.Promises x := by
  unfold Position.clear
  split
  · rfl
  · next s pass l g rest => cases pass <;> rfl
  · next s pass l fields g rest => cases pass <;> rfl
  · next s pass l name label stage more fault rest => cases pass <;> rfl
  · rfl

theorem Position.Promises.isEnded {x : Listener} {t : Task} (h : t.position.Promises x) :
    t.isEnded = false :=
  Task.isEnded_of_ne fun hend => by
    rw [hend] at h
    cases h

theorem Position.promises_passing {x : Listener} {s : Nat} {pass : Pass} {rest : List Listener} :
    (Position.passing s pass rest).Promises x ↔ (∃ m, pass = .delivery m) ∧ x ∈ rest := by
  cases pass <;> simp [Promises]

theorem Position.promises_calling {x l : Listener} {s : Nat} {pass : Pass} {cb : Callback}
    {rest : List Listener} :
    (Position.calling s pass l cb rest).Promises x ↔ (∃ m, pass = .delivery m) ∧ x ∈ rest := by
  cases pass <;> simp [Promises]

namespace World

variable {setup : Setup} {w v w' : World} {m : Move} {c name : String} {x : Listener} {id : Nat}
  {t t' : Task} {seen : List Address}

/-- A task that runs the cluster is going to tell the listener. -/
def Promised (w : World) (c : String) (x : Listener) : Prop :=
  ∃ (id : Nat) (t : Task), w.tasks[id]? = some t ∧ t.cluster = c ∧ t.cancelled = false ∧
    t.position.Promises x

/-- The listener was called with a message since then. -/
def Notified (x : Listener) (w v : World) : Prop :=
  ∃ ms id msg, v.trace = ms ++ w.trace ∧ .called id x (.event msg) ∈ ms

theorem Notified.before {ms : List Mark} (h : Notified x v w') (htrace : v.trace = ms ++ w.trace) :
    Notified x w w' := by
  obtain ⟨ms', id, msg, hm, hmem⟩ := h
  exact ⟨ms' ++ ms, id, msg, by rw [hm, htrace, List.append_assoc], List.mem_append_left _ hmem⟩

theorem Notified.after {ms : List Mark} (h : Notified x w v) (htrace : w'.trace = ms ++ v.trace) :
    Notified x w w' := by
  obtain ⟨ms', id, msg, hm, hmem⟩ := h
  exact ⟨ms ++ ms', id, msg, by rw [htrace, hm, List.append_assoc], List.mem_append_right _ hmem⟩

/-- A move that may leave a listener with an old picture of the set. -/
inductive Unheard (x : Listener) (c : String) (w : World) (m : Move) (w' : World) : Prop where
  /-- An updater replaces the set by what it has read of the hash. -/
  | reread {id s : Nat} {t : Task} {pass : Pass} {u : Listener} {g : Gate}
      {fields : List (String × String)} {rest : List Listener} (hm : m = .step (.task id))
      (ht : w.tasks[id]? = some t) (hc : t.cluster = c)
      (hp : t.position = .calling s pass u (.replied fields g) rest)
  /-- A message is applied, and the listener does not come later in its audience. -/
  | unaddressed {id s : Nat} {t : Task} {msg : String} {u : Listener} {rest : List Listener}
      (hm : m = .step (.task id)) (ht : w.tasks[id]? = some t) (hc : t.cluster = c)
      (hp : t.position = .passing s (.delivery msg) (u :: rest)) (hu : u.isUpdater = true)
      (hx : x ∉ rest)
  /-- The delivery ends before it is the listener's turn. -/
  | broken {id : Nat} {t t' : Task} (ht : w.tasks[id]? = some t) (hc : t.cluster = c)
      (hlive : t.cancelled = false) (hp : t.position.Promises x) (ht' : w'.tasks[id]? = some t')
      (hend : t'.cancelled = true ∨ t'.position.stream? = none)

/-- A task that promises to tell a listener goes on with the delivery, tells it, or gives its stream
up. -/
theorem TaskStep.promises (step : TaskStep setup w id t w') (ht : w.tasks[id]? = some t)
    (hproper : t.position.IsProper) (h : t.position.Promises (.user name))
    (ht' : w'.tasks[id]? = some t') :
    t'.position.Promises (.user name) ∨ t'.position.stream? = none ∨ Notified (.user name) w w' := by
  have hat : At id w t.position := ⟨t, ht, rfl⟩
  have left : Leaves id w w' → t'.position.stream? = none := by
    rintro ⟨-, u, hu, hstream⟩
    cases hu.symm.trans ht'
    exact hstream
  have goes : ∀ {p : Position}, At id w' p → p.Promises (.user name) →
      t'.position.Promises (.user name) := by
    intro p hp hprom
    rwa [hp.position_eq ht']
  cases step with
  | @parked p hp =>
    exact .inl (goes (hat.moveTask p) (Position.promises_clear.1 (hp ▸ Position.promises_clear.2 h)))
  | @passed s pass hp =>
    rw [hp, Position.promises_passing] at h
    cases h.2
  | @called s pass l rest hp =>
    rw [hp, Position.promises_passing] at h
    obtain ⟨⟨msg, rfl⟩, hmem⟩ := h
    cases l with
    | user other =>
      rcases List.mem_cons.1 hmem with heq | hmem
      · cases heq
        exact .inr (.inr ⟨[.called id (.user name) (.event msg)], id, msg, rfl, .head _⟩)
      · have hmid : ∀ visits, At id { w.note (.called id (.user other) (.event msg)) with visits }
          t.position := fun _ => hat
        exact .inl (goes ((hmid _).moveTask _) (Position.promises_calling.2 ⟨⟨msg, rfl⟩, hmem⟩))
    | updater k n =>
      rcases call_updater ht with hl | ⟨-, -, -, -, hgoes⟩
      · exact .inr (.inl (left hl))
      · have hrest := (List.mem_cons.1 hmem).resolve_left (by simp)
        exact .inl (goes hgoes (Position.promises_passing.2 ⟨⟨msg, rfl⟩, hrest⟩))
  | @returned s pass l other fault rest hp =>
    rw [hp, Position.promises_calling] at h
    cases hb : pass.hook.isBroken fault with
    | true => exact .inr (.inl (left (afterCallback_leaves hat hb)))
    | false =>
      obtain ⟨-, -, hgoes⟩ := @afterCallback_goes setup id t w _ hat s pass l fault rest hb
      exact .inl (goes hgoes (Position.promises_passing.2 h))
  | @acted s pass l other label a more fault rest v p hp hbegin =>
    rw [hp, Position.promises_calling] at h
    have he : Edits setup w v := by
      have hdone := @begin_edits setup (w.note (.doing other label)) (.task id) a
      rw [hbegin] at hdone
      exact (Edits.aside (.note w rfl)).trans hdone
    obtain ⟨u, hu, -⟩ := (Elsewhere.edits he).task t ht
    obtain ⟨cb, -, hgoes⟩ := settleAction_at ⟨u, hu, rfl⟩ p
    exact .inl (goes hgoes (Position.promises_calling.2 h))
  | @resumed s pass l other label stage more fault rest v p hp hresume =>
    rw [hp, Position.promises_calling] at h
    obtain ⟨u, hu, -⟩ := (Elsewhere.edits (resume_edits hresume)).task t ht
    obtain ⟨cb, -, hgoes⟩ := settleAction_at ⟨u, hu, rfl⟩ p
    exact .inl (goes hgoes (Position.promises_calling.2 h))
  -- In a delivery no hash is read.
  | unread hp | read hp | replaced hp =>
    rw [hp, Position.promises_calling] at h
    obtain ⟨⟨msg, rfl⟩, -⟩ := h
    rw [hp] at hproper
    cases hproper.2
  | refused hp | opened hp | woken hp | received hp | closed hp | retried hp =>
    rw [hp] at h
    cases h

/-- A promise is kept, given up, or still open after a move. -/
theorem Promised.move (h : w.Promised c (.user name)) (hp : w.Proper)
    (hm : w.move setup m = some w') : w'.Promised c (.user name) ∨
      Unheard (.user name) c w m w' ∨ Notified (.user name) w w' := by
  obtain ⟨id, t, ht, hc, hlive, hprom⟩ := h
  obtain ⟨t', ht', hc', -⟩ := (Lasts.move hm).task ht
  cases hcan : t'.cancelled with
  | true => exact .inr (.inl (.broken ht hc hlive hprom ht' (.inl hcan)))
  | false =>
    by_cases hstep : m = .step (.task id)
    · subst hstep
      obtain ⟨u, hu, hgo⟩ := Option.bind_eq_some_iff.1 hm
      cases hu.symm.trans ht
      simp only [stepTask, hprom.isEnded, hlive, Bool.false_eq_true, if_false] at hgo
      rcases (advanceTask_cases hgo).promises ht (hp id t ht) hprom ht' with hprom' | hleft | hnotified
      · exact .inl ⟨id, t', ht', hc'.trans hc, hcan, hprom'⟩
      · exact .inr (.inl (.broken ht hc hlive hprom ht' (.inr hleft)))
      · exact .inr (.inr hnotified)
    · obtain ⟨u, hu, hpos⟩ := stands_still ht hm hstep
      cases hu.symm.trans ht'
      refine .inl ⟨id, t', ht', hc'.trans hc, hcan, ?_⟩
      rwa [← Position.promises_clear, hpos, Position.promises_clear]

/-- When the set of a loaded cluster changes, a listener is promised to be told of it, unless it goes
unheard. -/
theorem promised_or_unheard (hs : Supervised w) (hk : Kept w) (hp : w.Proper)
    (hl : w.cell c = .loaded) (hm : w.move setup m = some w')
    (hne : (w'.caches.entry c).members ≠ (w.caches.entry c).members) :
    w.Promised c x ∨ Unheard x c w m w' := by
  obtain ⟨id, t, rfl, ht, hc, -, hlive, hfills⟩ := members_change hs hk hp hl hm hne
  cases hpos : t.position with
  | calling s pass u cb rest =>
    cases cb with
    | replied fields g => exact .inr (.reread rfl ht hc hpos)
    | _ => simp [Position.fills, hpos] at hfills
  | passing s pass rest =>
    cases pass with
    | delivery msg =>
      cases rest with
      | nil => simp [Position.fills, hpos] at hfills
      | cons u rest =>
        by_cases hx : x ∈ rest
        · exact .inl ⟨id, t, ht, hc, hlive, by rw [hpos]; exact List.mem_cons_of_mem u hx⟩
        · exact .inr (.unaddressed rfl ht hc hpos (by simpa [Position.fills, hpos] using hfills) hx)
    | _ => simp [Position.fills, hpos] at hfills
  | _ => simp [Position.fills, hpos] at hfills

end World

namespace Fleet

open World

variable {setups : Nat → Setup} {f g h : Fleet} {i j : Nat} {m : Move} {w v : World}
  {c name : String} {x : Listener} {seen : List Address}

/-- On the way from a state to another one, a move that a listener does not hear of left the set
different from what was seen of it. -/
def Slipped (setups : Nat → Setup) (i : Nat) (x : Listener) (c : String) (seen : List Address)
    (f g : Fleet) : Prop :=
  ∃ h m h' w w', Reaches setups f h ∧ h.world? i = some w ∧ h.move setups i m = some h' ∧
    h'.world? i = some w' ∧ Reaches setups h' g ∧ Unheard x c w m w' ∧
    Address.sort (w'.caches.entry c).members ≠ seen

theorem Slipped.move (hslipped : Slipped setups i x c seen f g) (next : g.move setups j m = some h) :
    Slipped setups i x c seen f h := by
  obtain ⟨k, n, k', w, w', hk, hw, hn, hw', hg, hrest⟩ := hslipped
  exact ⟨k, n, k', w, w', hk, hw, hn, hw', hg.move next, hrest⟩

/-- From a state on in which a cluster is loaded, a listener was told something, or the set is as it
was, or somebody is going to tell, unless a change of the set goes unheard. -/
theorem told_or_slipped (hf : Reachable setups f) (hw : f.world? i = some w)
    (hl : w.cell c = .loaded) (hr : Reaches setups f g) (hv : g.world? i = some v) :
    Address.sort (v.caches.entry c).members = Address.sort (w.caches.entry c).members ∨
      v.Promised c (.user name) ∨ Notified (.user name) w v ∨
      Slipped setups i (.user name) c (Address.sort (w.caches.entry c).members) f g := by
  induction hr generalizing v with
  | refl =>
    cases hw.symm.trans hv
    exact .inl rfl
  | @move g h j m past next ih =>
    obtain ⟨u, u', hu, hm, -, hi, hothers⟩ := move_cases next
    by_cases hj : j = i
    · subst hj
      cases hi.symm.trans hv
      have hg := hf.reaches past
      have hsup := (Streamed.of_reachable hg).supervised hu
      obtain ⟨hkept, hproper⟩ := kept_of_reachable hg hu
      have hloaded := past.loaded hf hw hl hu
      by_cases heq : Address.sort (v.caches.entry c).members =
          Address.sort (w.caches.entry c).members
      · exact .inl heq
      have slipped : Unheard (.user name) c u m v →
          Slipped setups j (.user name) c (Address.sort (w.caches.entry c).members) f h :=
        fun hun => ⟨g, m, h, u, v, past, hu, next, hi, .refl, hun, heq⟩
      have promised : u.Promised c (.user name) → v.Promised c (.user name) ∨
          Notified (.user name) w v ∨
          Slipped setups j (.user name) c (Address.sort (w.caches.entry c).members) f h := by
        intro hprom
        rcases hprom.move hproper hm with hprom | hun | hnotified
        · exact .inl hprom
        · exact .inr (.inr (slipped hun))
        · obtain ⟨ms, htrace⟩ := past.trace hw hu
          exact .inr (.inl (hnotified.before htrace))
      rcases ih hu with hsame | hprom | hnotified | hslipped
      · have hne : (v.caches.entry c).members ≠ (u.caches.entry c).members := by
          intro hmembers
          exact heq ((congrArg Address.sort hmembers).trans hsame)
        rcases promised_or_unheard hsup hkept hproper hloaded hm hne with hprom | hun
        · exact .inr (promised hprom)
        · exact .inr (.inr (.inr (slipped hun)))
      · exact .inr (promised hprom)
      · obtain ⟨new, hnew, -⟩ := move_author hm
        exact .inr (.inr (.inl (hnotified.after hnew)))
      · exact .inr (.inr (.inr (hslipped.move next)))
    · rw [hothers i hj] at hv
      obtain ⟨z, hz, rfl⟩ := Option.map_eq_some_iff.1 hv
      rcases ih hz with hsame | hprom | hnotified | hslipped
      · exact .inl hsame
      · exact .inr (.inl hprom)
      · exact .inr (.inr (.inl hnotified))
      · exact .inr (.inr (.inr (hslipped.move next)))

/-- When the newest task of a cluster listens, nobody is promised anything. -/
theorem not_promised_of_caughtUp (hf : Reachable setups f) (hw : f.world? i = some w)
    (hup : w.CaughtUp c) : ¬ w.Promised c x := by
  rintro ⟨id', u, hu, hc, hlive, hprom⟩
  obtain ⟨id, t, s, hleads, ht, hpos, -⟩ := hup
  have hsup := (Streamed.of_reachable hf).supervised hw
  have hhandle : w.handles.get? u.cluster = some id' :=
    hsup.held (charge?_of_task hu) hprom.isEnded hlive
  have hid : id = id' := hsup.leads_unique hleads (hsup.leads_of_handle (hc ▸ hhandle))
  subst hid
  cases ht.symm.trans hu
  rw [hpos] at hprom
  cases hprom

end Fleet

namespace CommandLine

open Fleet

variable {setups : Nat → Setup} {f g : Fleet} {i j call taken : Nat} {m : Move} {u v : World}
  {y : View}

/-! ## What the loop is told -/

theorem notified_append {ms : List Mark} (h : v.trace = ms ++ u.trace) :
    ∃ more, notified v = notified u ++ more ∧
      ∀ id msg, .called id (.user notifier) (.event msg) ∈ ms → more ≠ [] := by
  unfold notified
  rw [h, List.filterMap_append, List.reverse_append]
  refine ⟨_, rfl, fun id msg hmem hnil => ?_⟩
  have hnone := List.filterMap_eq_nil_iff.1 (List.reverse_eq_nil_iff.1 hnil) _ hmem
  cases (if_pos rfl : (if notifier = notifier then some msg else none) = some msg).symm.trans hnone

theorem answerOf?_append {ms : List Mark} (hv : v.trace = ms ++ u.trace)
    (hms : ∀ m ∈ ms, m.answers? = none) : answerOf? v call = answerOf? u call := by
  unfold answerOf?
  rw [hv, List.findSome?_append, List.findSome?_eq_none_iff.2, Option.none_or]
  intro m hm
  have hnone := hms m hm
  cases m with
  | answered id r => cases hnone
  | _ => rfl

/-- A call that has an answer after a move had it before, or was answered last. -/
theorem answerOf?_move {setup : Setup} {w w' : World} {r : Answer}
    (hm : w.move setup m = some w') (h : answerOf? w' call = some r) :
    answerOf? w call = some r ∨
      ∃ v past, w'.trace = .answered call r :: past ∧ w.Answers setup m r v := by
  obtain ⟨who, v, ⟨ms, htrace, hms⟩, -, hlast⟩ := World.move_records hm
  have hv : answerOf? v call = answerOf? w call :=
    answerOf?_append htrace fun m hm => (hms m hm).1
  rcases hlast with hsame | ⟨call', r', hnew, -, ha⟩
  · left
    rwa [← hv, answerOf?, ← hsame]
  · -- The mark that was made last decides.
    have hlast : answerOf? w' call =
        (if call' = call then some r' else none).or (answerOf? v call) := by
      unfold answerOf?
      rw [hnew, List.findSome?_cons]
      by_cases hc : call' = call <;> simp [hc]
    by_cases hc : call' = call
    · subst hc
      rw [hlast, if_pos rfl] at h
      cases h
      exact .inr ⟨v, v.trace, hnew, ha⟩
    · rw [hlast, if_neg hc, Option.none_or, hv] at h
      exact .inl h

/-! ## Runs -/

namespace Watch

/-- What the loop asks of its client with a step: the members, or, when it has printed the first
view, to attach the notifier. -/
def request? (w w' : Watch) : Option Action :=
  match w.position with
  | .waiting => some (.view w.key)
  | _ => if w.printed = [] then w'.shown?.map fun y => .attach y.cluster notifier else none

/-- The loop goes on, and asks with a number that nobody has used. -/
def goOn? (setups : Nat → Setup) (i : Nat) (f : Fleet) (w : Watch) : Option (Fleet × Watch) :=
  (w.step (setups i)).bind fun w' =>
    match w.request? w' with
    | none => some (f, w')
    | some a =>
      if (answerOf? w.world w.nextCall).isSome then none
      else (f.move setups i (.ask w.nextCall a)).bind fun g =>
        (g.world? i).map fun v => (g, { w' with world := v, nextCall := w.nextCall + 1 })

/-- What happens next while a watch runs. -/
inductive Turn where
  | loop
  /-- Somebody makes a move, and calls may have used numbers up. -/
  | other (client : Nat) (move : Move) (nextCall : Nat)

/-- Moves of others, after which the loop is to use this number. -/
def others (nextCall : Nat) (ms : List (Nat × Move)) : List Turn :=
  ms.map fun p => .other p.1 p.2 nextCall

/-- Whether a move would use the number of the call that the loop waits for. -/
def claims (w : Watch) : Move → Bool
  | .ask call _ => w.position == .viewing call
  | _ => false

/-- The state of everybody after a turn. -/
def turn? (setups : Nat → Setup) (i : Nat) (f : Fleet) (w : Watch) :
    Turn → Option (Fleet × Watch)
  | .loop => w.goOn? setups i f
  | .other j m nextCall =>
    if j = i ∧ w.claims m then none
    else (f.move setups j m).bind fun g =>
      (g.world? i).map fun v => (g, { w with world := v, nextCall })

def run (setups : Nat → Setup) (i : Nat) : Fleet × Watch → List Turn → Option (Fleet × Watch)
  | s, [] => some s
  | s, t :: rest => (s.2.turn? setups i s.1 t).bind fun s => run setups i s rest

/-- The states of a watch that a new client runs among others. -/
inductive Follows (setups : Nat → Setup) (i : Nat) (key : String) : Fleet → Watch → Prop where
  | start {f g : Fleet} {v : World} (hf : Reachable setups f)
      (hw : f.world? i = some { store := f.store })
      (next : f.move setups i (.ask 0 (.view key)) = some g) (hv : g.world? i = some v) :
      Follows setups i key g { key, world := v, nextCall := 1, position := .viewing 0 }
  | turn {f g : Fleet} {w w' : Watch} {t : Turn} (past : Follows setups i key f w)
      (next : w.turn? setups i f t = some (g, w')) : Follows setups i key g w'

/-- A run from its beginning. -/
def launch (setups : Nat → Setup) (i : Nat) (key : String) (f : Fleet) (ts : List Turn) :
    Option (Fleet × Watch) :=
  (f.move setups i (.ask 0 (.view key))).bind fun g =>
    (g.world? i).bind fun v =>
      run setups i (g, { key, world := v, nextCall := 1, position := .viewing 0 }) ts

variable {w w' : Watch} {key : String}

theorem follows_of_run {ts : List Turn} (h : Follows setups i key f w)
    (hr : run setups i (f, w) ts = some (g, w')) : Follows setups i key g w' := by
  induction ts generalizing f w with
  | nil =>
    cases hr
    exact h
  | cons t rest ih =>
    obtain ⟨⟨f', v⟩, ht, hr⟩ := Option.bind_eq_some_iff.1 hr
    exact ih (h.turn ht) hr

/-- The steps of the loop. -/
inductive Steps (w : Watch) : Watch → Prop where
  | took {v : World} {printed : List Output} (hp : w.position = .waiting) (hq : w.queue ≠ []) :
      Steps w { w with world := v, taken := w.taken + 1, nextCall := w.nextCall + 1,
                       position := .viewing w.nextCall, printed }
  | printed {call : Nat} {y : View} (hp : w.position = .viewing call)
      (ha : answerOf? w.world call = some (.view y)) :
      Steps w { w with position := .waiting, printed := w.printed ++ [.view y] }
  | failed {call : Nat} {f : Fault} (hp : w.position = .viewing call) :
      Steps w { w with position := .ended f }

theorem step_cases {setup : Setup} (h : w.step setup = some w') : Steps w w' := by
  unfold step at h
  split at h
  · next hp =>
    split at h
    · cases h
    · next hq =>
      cases h
      exact .took hp (by simp [hq])
  · next call hp =>
    split at h
    · next y ha =>
      cases h
      exact .printed hp ha
    · cases h
      exact .failed hp
    · cases h
  · cases h

theorem shown?_printed (w : Watch) (p : Position) (y : View) :
    ({ w with position := p, printed := w.printed ++ [.view y] } : Watch).shown? = some y := by
  simp [shown?]

theorem follows_of_launch {ts : List Turn} (hf : Reachable setups f)
    (hw : f.world? i = some { store := f.store })
    (hr : launch setups i key f ts = some (g, w)) : Follows setups i key g w := by
  obtain ⟨h, next, hr⟩ := Option.bind_eq_some_iff.1 hr
  obtain ⟨v, hv, hr⟩ := Option.bind_eq_some_iff.1 hr
  exact follows_of_run (.start hf hw next hv) hr

/-! ## What the loop has seen -/

/-- A view was answered, and all messages that the loop has taken had come by then. -/
def Viewed (setups : Nat → Setup) (i : Nat) (f : Fleet) (taken : Nat) (y : View) : Prop :=
  ∃ g v call past, Reachable setups g ∧ Reaches setups g f ∧ g.world? i = some v ∧
    v.trace = .answered call (.view y) :: past ∧ v.Shows y ∧ taken ≤ (notified v).length

theorem Viewed.move (h : Viewed setups i f taken y) (next : f.move setups j m = some g) :
    Viewed setups i g taken y := by
  obtain ⟨k, v, call, past, hk, hr, hrest⟩ := h
  exact ⟨k, v, call, past, hk, hr.move next, hrest⟩

/-- A view that is the answer of a call was answered before, or just now. -/
theorem viewed_of_answer (hf : Reachable setups f) (hu : f.world? i = some u)
    (next : f.move setups j m = some g) (hv : g.world? i = some v)
    (h : answerOf? v call = some (.view y)) (htaken : taken ≤ (notified v).length) :
    answerOf? u call = some (.view y) ∨ Viewed setups i g taken y := by
  obtain ⟨u₁, u₂, hu₁, hm, -, hi, hothers⟩ := move_cases next
  by_cases hj : j = i
  · subst hj
    cases hu.symm.trans hu₁
    cases hv.symm.trans hi
    refine (answerOf?_move hm h).imp_right fun ⟨v', past, htrace, ha⟩ => ?_
    exact ⟨g, v, call, past, hf.reaches (Reaches.refl.move next), .refl, hv, htrace, ha.shows hm,
      htaken⟩
  · rw [hothers i hj, hu] at hv
    cases hv
    exact .inl h

/-- The loop takes no more messages than there are, and knows what it has printed from an answer. -/
structure Valid (setups : Nat → Setup) (i : Nat) (f : Fleet) (w : Watch) : Prop where
  reachable : Reachable setups f
  world : f.world? i = some w.world
  taken : w.taken ≤ (notified w.world).length
  viewing : ∀ {call y}, w.position = .viewing call → answerOf? w.world call = some (.view y) →
    Viewed setups i f w.taken y
  shown : ∀ {y}, w.position = .waiting → w.shown? = some y → Viewed setups i f w.taken y

namespace Valid

/-- Whoever makes a move, what is known of the past stays known. -/
theorem move (h : Valid setups i f w) (next : f.move setups j m = some g)
    (hv : g.world? i = some v) (nextCall : Nat) :
    Valid setups i g { w with world := v, nextCall } := by
  obtain ⟨ms, htrace⟩ := (Reaches.refl.move next).trace h.world hv
  obtain ⟨more, hmore, -⟩ := notified_append htrace
  have htaken : w.taken ≤ (notified v).length := by
    rw [hmore, List.length_append]
    exact Nat.le_add_right_of_le h.taken
  refine ⟨h.reachable.reaches (Reaches.refl.move next), hv, htaken, fun hp ha => ?_, fun hp hs => ?_⟩
  · rcases viewed_of_answer h.reachable h.world next hv ha htaken with hold | hnew
    · exact (h.viewing hp hold).move next
    · exact hnew
  · exact (h.shown hp hs).move next

/-- The loop takes a message and asks for the members. -/
theorem asked (h : Valid setups i f w) (hqueue : w.queue ≠ [])
    (hnew : answerOf? w.world w.nextCall = none)
    (next : f.move setups i (.ask w.nextCall (.view w.key)) = some g) (hv : g.world? i = some v)
    (printed : List Output) (nextCall : Nat) : Valid setups i g { w with
      world := v, taken := w.taken + 1, nextCall, position := .viewing w.nextCall, printed } := by
  obtain ⟨ms, htrace⟩ := (Reaches.refl.move next).trace h.world hv
  obtain ⟨more, hmore, -⟩ := notified_append htrace
  have htaken : w.taken + 1 ≤ (notified v).length := by
    have hlt : w.taken < (notified w.world).length := by
      refine Nat.lt_of_not_le fun hle => hqueue ?_
      exact List.drop_eq_nil_of_le hle
    rw [hmore, List.length_append]
    omega
  refine ⟨h.reachable.reaches (Reaches.refl.move next), hv, htaken, fun {call y} hp ha => ?_,
    fun hp => by cases hp⟩
  cases hp
  rcases viewed_of_answer h.reachable h.world next hv ha htaken with hold | hnow
  · cases hnew.symm.trans hold
  · exact hnow

/-- The loop goes on. -/
theorem goOn (h : Valid setups i f w) (hgo : w.goOn? setups i f = some (g, w')) :
    Valid setups i g w' := by
  obtain ⟨w₁, hstep, hgo⟩ := Option.bind_eq_some_iff.1 hgo
  -- A call of a new number, or none.
  have went : (w.request? w₁ = none ∧ f = g ∧ w₁ = w') ∨ ∃ a v, w.request? w₁ = some a ∧
      answerOf? w.world w.nextCall = none ∧ f.move setups i (.ask w.nextCall a) = some g ∧
      g.world? i = some v ∧ w' = { w₁ with world := v, nextCall := w.nextCall + 1 } := by
    split at hgo
    · next hnone =>
      cases hgo
      exact .inl ⟨hnone, rfl, rfl⟩
    · next a ha =>
      split at hgo
      · cases hgo
      · next hnew =>
        obtain ⟨g', next, hgo⟩ := Option.bind_eq_some_iff.1 hgo
        obtain ⟨v, hv, heq⟩ := Option.map_eq_some_iff.1 hgo
        cases heq
        exact .inr ⟨a, v, ha, by simpa using hnew, next, hv, rfl⟩
  cases step_cases hstep with
  | @took v printed hp hq =>
    rcases went with ⟨hnone, -⟩ | ⟨a, v', ha, hnew, next, hv, rfl⟩
    · simp [request?, hp] at hnone
    · have hview : a = .view w.key := by
        simp [request?, hp] at ha
        exact ha.symm
      subst hview
      exact h.asked hq hnew next hv printed _
  | @printed call y hp ha =>
    have hprinted : Valid setups i f
        { w with position := .waiting, printed := w.printed ++ [.view y] } := by
      refine ⟨h.reachable, h.world, h.taken, fun hp => (by cases hp), fun _ hs => ?_⟩
      cases (shown?_printed w .waiting y).symm.trans hs
      exact h.viewing hp ha
    rcases went with ⟨-, rfl, rfl⟩ | ⟨a, v', -, -, next, hv, rfl⟩
    · exact hprinted
    · exact hprinted.move next hv _
  | @failed call fault hp =>
    have hended : Valid setups i f { w with position := .ended fault } :=
      ⟨h.reachable, h.world, h.taken, fun hp => (by cases hp), fun hp => (by cases hp)⟩
    rcases went with ⟨-, rfl, rfl⟩ | ⟨a, v', -, -, next, hv, rfl⟩
    · exact hended
    · exact hended.move next hv _

/-- Every run keeps it. -/
theorem of_follows (h : Follows setups i key f w) : Valid setups i f w := by
  induction h with
  | @start f g v hf hw next hv =>
    refine ⟨hf.reaches (Reaches.refl.move next), hv, Nat.zero_le _, fun {call y} hp ha => ?_,
      fun hp => by cases hp⟩
    refine (viewed_of_answer hf hw next hv ha (Nat.zero_le _)).resolve_left fun hold => ?_
    cases hold
  | @turn f g w w' t past next ih =>
    cases t with
    | loop => exact ih.goOn next
    | other j m nextCall =>
      simp only [turn?] at next
      split at next
      · cases next
      · obtain ⟨h, hm, next⟩ := Option.bind_eq_some_iff.1 next
        obtain ⟨v, hv, heq⟩ := Option.map_eq_some_iff.1 next
        cases heq
        exact ih.move hm hv nextCall

end Valid

/-! ## What it shows -/

/-- A watch shows the members of a cluster that is at rest when it has taken all messages, or else
the set changed in a way that the notifier was not told of, since the call was answered whose view
was printed last. -/
theorem view_current (h : Follows setups i key f w) (hwait : w.position = .waiting)
    (hqueue : w.queue = []) (hshown : w.shown? = some y) (hup : w.world.CaughtUp y.cluster) :
    y.addresses = Address.sort (w.world.caches.entry y.cluster).members ∨
    ∃ g v call past, Reaches setups g f ∧ g.world? i = some v ∧
      v.trace = .answered call (.view y) :: past ∧
      Slipped setups i (.user notifier) y.cluster y.addresses g f := by
  have hvalid := Valid.of_follows h
  obtain ⟨g, v, call, past, hg, hr, hv, htrace, hshows, htaken⟩ := hvalid.shown hwait hshown
  rcases told_or_slipped hg hv hshows.loaded hr hvalid.world with
    hsame | hprom | ⟨ms, id, msg, hms, hmem⟩ | hslipped
  · exact .inl (hshows.addresses.trans hsame.symm)
  · exact absurd hprom (not_promised_of_caughtUp hvalid.reachable hvalid.world hup)
  · -- The message would be in the queue.
    obtain ⟨more, hmore, hne⟩ := notified_append hms
    have hlen : (notified w.world).length ≤ w.taken := List.drop_eq_nil_iff.1 hqueue
    have hpos := List.length_pos_iff.2 (hne id msg hmem)
    rw [hmore, List.length_append] at hlen
    omega
  · exact .inr ⟨g, v, call, past, hr, hv, htrace, hshows.addresses ▸ hslipped⟩

/-- Another client registers an address while the first view is on its way to the loop: the event
is applied before the notifier is attached. -/
theorem view_current_late : ∃ f w y g, Follows (fun _ => .mapped "me@here" "c") 0 "k" f w ∧
    w.position = .waiting ∧ w.queue = [] ∧ w.shown? = some y ∧ w.world.CaughtUp y.cluster ∧
    y.addresses = [] ∧
    (Address.sort (w.world.caches.entry y.cluster).members).map Address.text =
      ["10.0.0.1:8091"] ∧
    Slipped (fun _ => .mapped "me@here" "c") 0 (.user notifier) y.cluster y.addresses g f := by
  obtain ⟨⟨f, w⟩, hr, hp⟩ := (Option.any_eq_true _ _).1 (show
    (launch (fun _ => .mapped "me@here" "c") 0 "k" (start .usual 2)
      (others 1 (List.replicate 2 (0, .step (.call 0)) ++ List.replicate 5 (0, .step (.task 0)) ++
        [(0, .step (.call 0)), (1, .ask 0 (.register "10.0.0.1:8091")), (1, .step (.call 0)),
          (1, .step (.call 0))] ++ List.replicate 4 (0, .step (.task 0))) ++ [.loop] ++
        others 2 (List.replicate 4 (0, .step (.task 0))))).any
      (fun s => s.2.position == .waiting && s.2.queue == [] && (s.2.shown?.any fun y =>
        y.cluster == "c" && y.addresses == []) && s.2.world.isCaughtUp "c" &&
        (Address.sort (s.2.world.caches.entry "c").members).map Address.text ==
          ["10.0.0.1:8091"]) = true
    by decide +kernel)
  simp only [Bool.and_eq_true, beq_iff_eq, Option.any_eq_true] at hp
  obtain ⟨⟨⟨⟨hwait, hqueue⟩, y, hshown, hc, hempty⟩, hup⟩, hmembers⟩ := hp
  have hfollows := follows_of_launch ⟨.usual, 2, rfl, .refl⟩ rfl hr
  have hup : w.world.CaughtUp y.cluster := hc ▸ World.caughtUp_of_isCaughtUp hup
  rcases view_current hfollows hwait hqueue hshown hup with hsame | ⟨g, -, -, -, -, -, -, hslipped⟩
  · rw [hc] at hsame
    rw [← hsame, hempty] at hmembers
    cases hmembers
  · exact ⟨f, w, y, g, hfollows, hwait, hqueue, hshown, hup, hempty, hc ▸ hmembers, hslipped⟩

/-- The stream of the cluster is cut, and another client changes the hash meanwhile. The updater
reads the hash on the new stream, and nobody tells the notifier: the watch goes on showing the old
members. -/
theorem view_outdated : ∃ f w y, Follows (fun _ => .mapped "me@here" "c") 0 "k" f w ∧
    w.position = .waiting ∧ w.queue = [] ∧ w.shown? = some y ∧ w.world.CaughtUp y.cluster ∧
    y.addresses = [] ∧
    (Address.sort (w.world.caches.entry y.cluster).members).map Address.text =
      ["10.0.0.9:8091"] := by
  obtain ⟨⟨f, w⟩, hr, hp⟩ := (Option.any_eq_true _ _).1 (show
    (launch (fun _ => .mapped "me@here" "c") 0 "k" (start .usual 2)
      (others 1 (List.replicate 2 (0, .step (.call 0)) ++ List.replicate 5 (0, .step (.task 0)) ++
        [(0, .step (.call 0))]) ++ [.loop] ++
        others 2 (List.replicate 4 (0, .step (.task 0)) ++
          [(1, .ask 0 (.putField "registry.redis.c" "10.0.0.9:8091" "test@host")),
            (1, .ask 1 (.disconnect "registry.redis.c")), (0, .step (.task 0)),
            (0, .elapse 500000000)] ++ List.replicate 8 (0, .step (.task 0))))).any
      (fun s => s.2.position == .waiting && s.2.queue == [] && (s.2.shown?.any fun y =>
        y.cluster == "c" && y.addresses == []) && s.2.world.isCaughtUp "c" &&
        (Address.sort (s.2.world.caches.entry "c").members).map Address.text ==
          ["10.0.0.9:8091"]) = true
    by decide +kernel)
  simp only [Bool.and_eq_true, beq_iff_eq, Option.any_eq_true] at hp
  obtain ⟨⟨⟨⟨hwait, hqueue⟩, y, hshown, hc, hempty⟩, hup⟩, hmembers⟩ := hp
  exact ⟨f, w, y, follows_of_launch ⟨.usual, 2, rfl, .refl⟩ rfl hr, hwait, hqueue, hshown,
    hc ▸ World.caughtUp_of_isCaughtUp hup, hempty, hc ▸ hmembers⟩

end Watch

end CommandLine

end Muster
