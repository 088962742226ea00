import Muster.Proofs.Freshness

/-!
# Changes of the own cluster under faults

A register or unregister call sends two commands, the change of the hash and its announcement, and
stops at the first that fails. `Fares` follows one call through whatever happens beside it,
`Changes` a sequence of calls. A call comes to one of few outcomes (`Announces`, `Writes`); from
these the hash is the fold of the changes that succeeded, the counters count the calls that
succeeded, and a call that was repeated until it succeeded leaves what one clean call leaves.
-/
namespace Muster

namespace Address

open Text

/-- The addresses that come about: read from a text, or a port on a host. -/
inductive Made : Address → Prop
  | read {s : String} {a : Address} (h : ofText? s = some a) : Made a
  | ofIp (ip : Ip) (port : UInt16) : Made (ofIp ip port)

theorem made_iff_isPlain {a : Address} : a.Made ↔ a.isPlain = true := by
  constructor
  · rintro (h | ⟨o | g, port⟩)
    · exact isPlain_of_ofText? h
    · rfl
    · rfl
  · exact fun h => .read (ofText?_text h)

/-- The address that the text of an address reads as. -/
def plain : Address → Address
  | v4 octets port => v4 octets port
  | v6 groups port _ scope => v6 groups port 0 scope

theorem isPlain_plain (a : Address) : a.plain.isPlain = true := by
  cases a <;> rfl

theorem text_plain (a : Address) : a.plain.text = a.text := by
  cases a <;> rfl

theorem plain_of_isPlain {a : Address} (h : a.isPlain = true) : a.plain = a := by
  cases a with
  | v4 => rfl
  | v6 _ _ flow _ => rw [plain, beq_iff_eq.1 h]

theorem ofText?_text_plain (a : Address) : ofText? a.text = some a.plain := by
  rw [← text_plain, ofText?_text (isPlain_plain a)]

theorem plain_congr {a b : Address} (h : a.text = b.text) : a.plain = b.plain := by
  have hread := ofText?_text_plain a
  rw [h, ofText?_text_plain] at hread
  exact (Option.some.inj hread).symm

end Address

namespace Memory

variable {m m' : Memory} {key field : String}

theorem hash_setField {value : String} (h : m.setField key field value = .ok m') :
    m'.hash key = (m.hash key).insert field value := by
  rw [← attempt_ok h, hash_put, if_pos rfl]

theorem hash_deleteField {had : Bool} (h : m.deleteField key field = .ok (had, m')) :
    m'.hash key = (m.hash key).erase field := by
  cases attempt_ok h
  cases hh : m.hashes.get? key with
  | none => simpa [hash, hh] using (Table.erase_of_get? (Table.get?_empty field)).symm
  | some t => simp [hash, hh]

end Memory

/-- The counter of the calls of a kind that succeeded. -/
def EventKind.counter : EventKind → Counter
  | register => .registrations
  | unregister => .unregistrations

namespace Event

/-- The command that changes the hash. -/
def change (setup : Setup) (e : Event) : StoreCall :=
  match e.kind with
  | .register => .setField setup.config.ownKey e.address.text setup.config.identity
  | .unregister => .deleteField setup.config.ownKey e.address.text

/-- The command that announces the change. -/
def announcement (setup : Setup) (e : Event) : StoreCall :=
  .publish setup.config.ownKey e.encode

/-- What the change makes of a hash. -/
def write (setup : Setup) (e : Event) (hash : Table String String) : Table String String :=
  match e.kind with
  | .register => hash.insert e.address.text setup.config.identity
  | .unregister => hash.erase e.address.text

/-- What the change makes of the entry of its address. -/
def entry? (setup : Setup) (e : Event) : Option String :=
  match e.kind with
  | .register => some setup.config.identity
  | .unregister => none

theorem get?_write (setup : Setup) (e : Event) (hash : Table String String) (field : String) :
    (e.write setup hash).get? field =
      if e.address.text = field then e.entry? setup else hash.get? field := by
  unfold write entry?
  cases e.kind <;> simp

theorem decode_encode_plain (e : Event) : decode e.encode = .ok ⟨e.address.plain, e.kind⟩ := by
  have hencode : e.encode = (⟨e.address.plain, e.kind⟩ : Event).encode := by
    simp [encode, Address.text_plain]
  rw [hencode, decode_encode (Address.isPlain_plain _)]

theorem change_ne_publish (setup : Setup) (e : Event) (key message : String) :
    e.change setup ≠ .publish key message := by
  unfold change
  cases e.kind <;> exact nofun

end Event

/-- A register or unregister call that was made. -/
structure Change where
  event : Event
  /-- The commands that it sent, oldest first, each with the fault that it met. -/
  commands : List (StoreCall × Option Fault)
  /-- Nothing for a call that was dropped. -/
  answer : Option Answer
deriving DecidableEq

/-- A command of an actor, with the fault that it met. -/
def Mark.command? (who : Actor) : Mark → Option (StoreCall × Option Fault)
  | .stored actor call fault => if actor = who then some (call, fault) else none
  | _ => none

/-- The message that a command has published. -/
def StoreCall.sent? : StoreCall × Option Fault → Option String
  | (.publish _ message, none) => some message
  | _ => none

@[simp] theorem StoreCall.sent?_fault (call : StoreCall) (f : Fault) :
    sent? (call, some f) = none := by
  cases call <;> rfl

@[simp] theorem Event.sent?_change (setup : Setup) (e : Event) :
    StoreCall.sent? (e.change setup, none) = none := by
  unfold change
  cases e.kind <;> rfl

@[simp] theorem Event.sent?_announcement (setup : Setup) (e : Event) :
    StoreCall.sent? (e.announcement setup, none) = some e.encode := rfl

namespace Change

/-- The hash was changed. -/
def changed (setup : Setup) (c : Change) : Bool := (c.event.change setup, none) ∈ c.commands

def succeeded (c : Change) : Bool := c.answer = some .done

/-- The messages that the call has published. -/
def sent (c : Change) : List String := c.commands.filterMap StoreCall.sent?

end Change

namespace World

variable {setup : Setup} {w v w' : World} {who : Actor} {e : Event} {p : Progress}
  {commands : List (StoreCall × Option Fault)} {answer : Option Answer} {cs : List Change}

/-! ## Calls among other things -/

/-- Begins the call for an event. -/
def beginEvent (w : World) (e : Event) : World × Progress :=
  if w.closed then (w, .finished (.failed .shutdown))
  else
    match e.address.validate with
    | .error f => (w, .finished (.failed f))
    | .ok () => (w, .paused (.writing e .arriving))

/-- A call that is given a text reads it first. -/
theorem beginChange_eq (w : World) (kind : EventKind) (text : String) :
    w.beginChange kind text =
      match Address.ofText text with
      | .error f => (w, .finished (.failed f))
      | .ok a => w.beginEvent ⟨a, kind⟩ := rfl

/-- What may happen beside the changes of a client: anything that leaves the hash of its own
cluster, and its counts of them, as they are. -/
structure Respects (setup : Setup) (w w' : World) : Prop where
  hash : w'.store.hash setup.config.ownKey = w.store.hash setup.config.ownKey
  counts : ∀ k : EventKind, w'.counters.get k.counter = w.counters.get k.counter

/-- How a call fares from where it stands: the commands that it sends, its answer, and the client
that it leaves. -/
inductive Fares (setup : Setup) (who : Actor) :
    World → Progress → List (StoreCall × Option Fault) → Option Answer → World → Prop
  | answered {w : World} {a : Answer} : Fares setup who w (.finished a) [] (some a) w
  | dropped {w : World} {stage : Stage} :
    Fares setup who w (.paused stage) [] none (w.abandon who stage)
  /-- Something else happens. -/
  | beside {w v w' : World} {p : Progress} {commands : List (StoreCall × Option Fault)}
    {answer : Option Answer} (h : Respects setup w v)
    (rest : Fares setup who v p commands answer w') : Fares setup who w p commands answer w'
  /-- The command that it stands before is let through its gate. -/
  | cleared {w w' : World} {stage : Stage} {commands : List (StoreCall × Option Fault)}
    {answer : Option Answer} (rest : Fares setup who w (.paused stage.clear) commands answer w') :
    Fares setup who w (.paused stage) commands answer w'
  | went {w v w' : World} {stage : Stage} {p : Progress} {ms : List Mark}
    {commands : List (StoreCall × Option Fault)} {answer : Option Answer}
    (h : w.resume setup who stage = some (v, p)) (marks : v.trace = ms ++ w.trace)
    (rest : Fares setup who v p commands answer w') :
    Fares setup who w (.paused stage) (ms.reverse.filterMap (Mark.command? who) ++ commands)
      answer w'

/-- Calls of one client, one after another, each by one of its actors. -/
inductive Changes (setup : Setup) (w : World) : List Change → World → Prop
  | refl : Changes setup w [] w
  | beside {v w' : World} {cs : List Change} (past : Changes setup w cs v)
    (h : Respects setup v w') : Changes setup w cs w'
  | call {v w' : World} {cs : List Change} {c : Change} {who : Actor}
    (past : Changes setup w cs v)
    (h : Fares setup who (v.beginEvent c.event).1 (v.beginEvent c.event).2 c.commands c.answer w') :
    Changes setup w (cs ++ [c]) w'

namespace Respects

theorem quiet (hs : w'.store = w.store) (hc : w'.counters = w.counters) : Respects setup w w' :=
  ⟨by rw [hs], fun _ => by rw [hc]⟩

theorem trans {a b c : World} (h : Respects setup a b) (h' : Respects setup b c) :
    Respects setup a c :=
  ⟨h'.hash.trans h.hash, fun k => (h'.counts k).trans (h.counts k)⟩

end Respects

/-- A step of a call of the client is a step of `Fares`, but for the note of where it stands. -/
theorem Fares.stepped {id : Nat} {stage : Stage} (hs : w.calls.get? id = some stage)
    (h : w.stepCall setup id = some w') :
    ∃ v p, w.resume setup (.call id) stage = some (v, p) ∧ w' = v.settleCall id p ∧
      Respects setup v w' := by
  unfold stepCall at h
  rw [hs] at h
  obtain ⟨⟨v, p⟩, hr, rfl⟩ := Option.map_eq_some_iff.1 h
  refine ⟨v, p, hr, rfl, ?_⟩
  cases p <;> exact .quiet rfl rfl

/-! ## The two commands -/

/-- The change fails and has no effect, or is made and will be announced. -/
theorem write_cases (setup : Setup) (w : World) (who : Actor) (e : Event) :
    (∃ f faults, w.write setup who e =
      ({ w with faults }.note (.stored who (e.change setup) (some f)), .finished (.failed f))) ∨
    (∃ store faults, store.hash setup.config.ownKey =
        e.write setup (w.store.hash setup.config.ownKey) ∧
      w.write setup who e = ({ w with faults, store }.note (.stored who (e.change setup) none),
        .paused (.announcing e .arriving))) := by
  obtain ⟨a, kind⟩ := e
  cases kind with
  | register =>
    rcases perform_cases w who (.setField setup.config.ownKey a.text setup.config.identity)
      (fun s => (s.setField setup.config.ownKey a.text setup.config.identity).map ((), ·)) with
      ⟨f, faults, hp⟩ | ⟨_, store, faults, hc, hp⟩
    · exact .inl ⟨f, faults, by simp [write, setField, hp, Event.change]⟩
    · refine .inr ⟨store, faults, ?_, by simp [write, setField, hp, Event.change]⟩
      cases hset : w.store.setField setup.config.ownKey a.text setup.config.identity with
      | error f => simp [hset, Except.map] at hc
      | ok m =>
        have hm : m = store := by simpa [hset, Except.map] using hc
        exact Memory.hash_setField (hm ▸ hset)
  | unregister =>
    rcases perform_cases w who (.deleteField setup.config.ownKey a.text)
      (fun s => s.deleteField setup.config.ownKey a.text) with
      ⟨f, faults, hp⟩ | ⟨_, store, faults, hc, hp⟩
    · exact .inl ⟨f, faults, by simp [write, deleteField, hp, Except.map, Event.change]⟩
    · exact .inr ⟨store, faults, Memory.hash_deleteField hc,
        by simp [write, deleteField, hp, Except.map, Event.change]⟩

/-- The announcement fails, or is made and counted. -/
theorem announce_cases (setup : Setup) (w : World) (who : Actor) (e : Event) :
    (∃ f faults, w.announce setup who e =
      ({ w with faults }.note (.stored who (e.announcement setup) (some f)),
        .finished (.failed f))) ∨
    (∃ store faults, store.hash setup.config.ownKey = w.store.hash setup.config.ownKey ∧
      w.announce setup who e =
        (({ w with faults, store }.note (.stored who (e.announcement setup) none)).count
          e.kind.counter, .finished .done)) := by
  rcases perform_cases w who (.publish setup.config.ownKey e.encode)
    (fun s => s.publish setup.config.ownKey e.encode) with
    ⟨f, faults, hp⟩ | ⟨_, store, faults, hc, hp⟩
  · exact .inl ⟨f, faults, by simp [announce, publishMessage, hp, Event.announcement]⟩
  · refine .inr ⟨store, faults, ?_, ?_⟩
    · cases Memory.attempt_ok hc
      rfl
    · simp only [announce, publishMessage, hp]
      cases e.kind <;> rfl

/-! ## Outcomes -/

/-- How the announcement of a change comes out. -/
inductive Announces (setup : Setup) (e : Event) (w : World) :
    List (StoreCall × Option Fault) → Option Answer → World → Prop
  | dropped {w' : World} (h : Respects setup w w') : Announces setup e w [] none w'
  | failed {w' : World} (f : Fault) (h : Respects setup w w') :
    Announces setup e w [(e.announcement setup, some f)] (some (.failed f)) w'
  | succeeded {w' : World}
    (hash : w'.store.hash setup.config.ownKey = w.store.hash setup.config.ownKey)
    (counts : ∀ k : EventKind, w'.counters.get k.counter =
      w.counters.get k.counter + if k = e.kind then 1 else 0) :
    Announces setup e w [(e.announcement setup, none)] (some .done) w'

/-- How a change comes out. -/
inductive Writes (setup : Setup) (e : Event) (w : World) :
    List (StoreCall × Option Fault) → Option Answer → World → Prop
  | dropped {w' : World} (h : Respects setup w w') : Writes setup e w [] none w'
  | failed {w' : World} (f : Fault) (h : Respects setup w w') :
    Writes setup e w [(e.change setup, some f)] (some (.failed f)) w'
  | made {v w' : World} {commands : List (StoreCall × Option Fault)} {answer : Option Answer}
    (hash : v.store.hash setup.config.ownKey = e.write setup (w.store.hash setup.config.ownKey))
    (counts : ∀ k : EventKind, v.counters.get k.counter = w.counters.get k.counter)
    (rest : Announces setup e v commands answer w') :
    Writes setup e w ((e.change setup, none) :: commands) answer w'

theorem Announces.beside (h : Respects setup w v) (a : Announces setup e v commands answer w') :
    Announces setup e w commands answer w' := by
  cases a with
  | dropped hv => exact .dropped (h.trans hv)
  | failed f hv => exact .failed f (h.trans hv)
  | succeeded hash counts =>
    exact .succeeded (hash.trans h.hash) fun k => by rw [counts, h.counts]

theorem Writes.beside (h : Respects setup w v) (a : Writes setup e v commands answer w') :
    Writes setup e w commands answer w' := by
  cases a with
  | dropped hv => exact .dropped (h.trans hv)
  | failed f hv => exact .failed f (h.trans hv)
  | made hash counts rest =>
    exact .made (hash.trans (by rw [h.hash])) (fun k => (counts k).trans (h.counts k)) rest

/-- Where a call stands decides how it may come out. -/
def Expects (setup : Setup) (w : World) (commands : List (StoreCall × Option Fault))
    (answer : Option Answer) (w' : World) : Progress → Prop
  | .finished a => commands = [] ∧ answer = some a ∧ Respects setup w w'
  | .paused (.writing e _) => Writes setup e w commands answer w'
  | .paused (.announcing e _) => Announces setup e w commands answer w'
  | .paused _ => True

theorem Expects.beside (h : Respects setup w v) (hv : Expects setup v commands answer w' p) :
    Expects setup w commands answer w' p := by
  cases p with
  | finished a => exact ⟨hv.1, hv.2.1, h.trans hv.2.2⟩
  | paused stage =>
    cases stage with
    | writing e g => exact Writes.beside h hv
    | announcing e g => exact Announces.beside h hv
    | _ => trivial

theorem marks_eq {m : Mark} {ms trace : List Mark} (h : m :: trace = ms ++ trace) : ms = [m] :=
  (List.append_cancel_right (show [m] ++ trace = ms ++ trace from h)).symm

theorem Writes.went {g : Gate} {ms : List Mark}
    (h : w.resume setup who (.writing e g) = some (v, p)) (hm : v.trace = ms ++ w.trace)
    (rest : Expects setup v commands answer w' p) :
    Writes setup e w (ms.reverse.filterMap (Mark.command? who) ++ commands) answer w' := by
  rcases throughGate_cases h with heq | heq
  · -- it is held up and has sent nothing yet
    cases heq
    obtain rfl : ms = [] := by simpa using hm
    exact rest
  rcases write_cases setup w who e with ⟨f, faults, hw⟩ | ⟨store, faults, hash, hw⟩
  · rw [hw] at heq
    cases heq
    obtain ⟨rfl, rfl, hresp⟩ := rest
    obtain rfl := marks_eq hm
    have hfailed : Writes setup e w [(e.change setup, some f)] (some (.failed f)) w' :=
      .failed f ⟨hresp.hash, hresp.counts⟩
    simpa [Mark.command?] using hfailed
  · rw [hw] at heq
    cases heq
    obtain rfl := marks_eq hm
    have hannounces : Announces setup e ({ w with faults, store }.note
        (.stored who (e.change setup) none)) commands answer w' := rest
    have hmade : Writes setup e w ((e.change setup, none) :: commands) answer w' := by
      refine .made ?_ ?_ hannounces
      · exact hash
      · exact fun _ => rfl
    simpa [Mark.command?] using hmade

theorem Announces.went {g : Gate} {ms : List Mark}
    (h : w.resume setup who (.announcing e g) = some (v, p)) (hm : v.trace = ms ++ w.trace)
    (rest : Expects setup v commands answer w' p) :
    Announces setup e w (ms.reverse.filterMap (Mark.command? who) ++ commands) answer w' := by
  rcases throughGate_cases h with heq | heq
  · cases heq
    obtain rfl : ms = [] := by simpa using hm
    exact rest
  rcases announce_cases setup w who e with ⟨f, faults, hw⟩ | ⟨store, faults, hash, hw⟩
  · rw [hw] at heq
    cases heq
    obtain ⟨rfl, rfl, hresp⟩ := rest
    obtain rfl := marks_eq hm
    have hfailed : Announces setup e w [(e.announcement setup, some f)] (some (.failed f)) w' :=
      .failed f ⟨hresp.hash, hresp.counts⟩
    simpa [Mark.command?] using hfailed
  · rw [hw] at heq
    cases heq
    obtain ⟨rfl, rfl, hresp⟩ := rest
    obtain rfl := marks_eq hm
    have counts : ∀ k : EventKind, w'.counters.get k.counter =
        w.counters.get k.counter + if k = e.kind then 1 else 0 := fun k => by
      rw [hresp.counts]
      simp only [World.count, World.note, Counters.get_incr]
      cases k <;> cases e.kind <;> rfl
    simpa [Mark.command?] using Announces.succeeded (hresp.hash.trans hash) counts

theorem Fares.expects (h : Fares setup who w p commands answer w') :
    Expects setup w commands answer w' p := by
  induction h with
  | answered => exact ⟨rfl, rfl, .quiet rfl rfl⟩
  | @dropped w stage =>
    cases stage with
    | writing e g => exact Writes.dropped (.quiet rfl rfl)
    | announcing e g => exact Announces.dropped (.quiet rfl rfl)
    | _ => trivial
  | beside h _ ih => exact ih.beside h
  | @cleared _ _ stage _ _ _ ih => cases stage <;> exact ih
  | @went _ _ _ stage _ _ _ _ hr hm _ ih =>
    cases stage with
    | writing e g => exact Writes.went hr hm ih
    | announcing e g => exact Announces.went hr hm ih
    | _ => trivial

/-! ## One call -/

/-- What a call has done to the hash of its cluster and to the counters. -/
structure Outcome (setup : Setup) (c : Change) (w w' : World) : Prop where
  hash : w'.store.hash setup.config.ownKey =
    if c.changed setup then c.event.write setup (w.store.hash setup.config.ownKey)
    else w.store.hash setup.config.ownKey
  counts : ∀ k : EventKind, w'.counters.get k.counter =
    w.counters.get k.counter + if c.succeeded ∧ c.event.kind = k then 1 else 0
  commands : ∀ p ∈ c.commands, p.1 = c.event.change setup ∨ p.1 = c.event.announcement setup
  sent : c.sent = if c.succeeded then [c.event.encode] else []
  changed : c.succeeded = true → c.changed setup = true
  /-- Whatever is published follows the change that it announces. -/
  follows : ∀ before key message fault after,
    c.commands = before ++ (.publish key message, fault) :: after →
      key = setup.config.ownKey ∧ message = c.event.encode ∧ (c.event.change setup, none) ∈ before
  /-- An address that is refused causes no command. -/
  refused : ∀ f, c.event.address.validate = .error f →
    c.commands = [] ∧ ∃ f', c.answer = some (.failed f')

theorem Outcome.unsent {f : Fault} (h : Respects setup w w') :
    Outcome setup ⟨e, [], some (.failed f)⟩ w w' where
  hash := by simpa [Change.changed] using h.hash
  counts := by simpa [Change.succeeded] using h.counts
  commands := by simp
  sent := by simp [Change.sent, Change.succeeded]
  changed := by simp [Change.succeeded]
  follows := by simp
  refused := fun _ _ => ⟨rfl, f, rfl⟩

/-- Behind the change of the hash stands at most its announcement, and only if it was made. -/
theorem follows_change {fault : Option Fault}
    (h : ∀ p ∈ commands, p.1 = e.announcement setup ∧ fault = none)
    {before after : List (StoreCall × Option Fault)} {key message : String} {fault' : Option Fault}
    (heq : (e.change setup, fault) :: commands = before ++ (.publish key message, fault') :: after) :
    key = setup.config.ownKey ∧ message = e.encode ∧ (e.change setup, none) ∈ before := by
  cases before with
  | nil => exact absurd (Prod.ext_iff.1 (List.cons.inj heq).1).1 (e.change_ne_publish setup _ _)
  | cons p before =>
    obtain ⟨rfl, rfl⟩ := List.cons.inj heq
    obtain ⟨hpublish, rfl⟩ := h (.publish key message, fault') (by simp)
    obtain ⟨rfl, rfl⟩ := StoreCall.publish.inj hpublish
    exact ⟨rfl, rfl, .head _⟩

theorem Writes.outcome (hv : e.address.validate = .ok ())
    (h : Writes setup e w commands answer w') : Outcome setup ⟨e, commands, answer⟩ w w' := by
  have refused : ∀ {P : Prop} (f : Fault), e.address.validate = .error f → P :=
    fun f hf => by rw [hv] at hf; cases hf
  cases h with
  | dropped h =>
    exact ⟨by simpa [Change.changed] using h.hash, by simpa [Change.succeeded] using h.counts,
      by simp, by simp [Change.sent, Change.succeeded], by simp [Change.succeeded], by simp, refused⟩
  | failed f h =>
    exact ⟨by simpa [Change.changed] using h.hash, by simpa [Change.succeeded] using h.counts,
      by simp, by simp [Change.sent, Change.succeeded], by simp [Change.succeeded],
      fun _ _ _ _ _ => follows_change (by simp), refused⟩
  | made hash counts rest =>
    cases rest with
    | dropped h =>
      exact ⟨by simpa [Change.changed] using h.hash.trans hash,
        by simpa [Change.succeeded] using fun k => (h.counts k).trans (counts k),
        by simp, by simp [Change.sent, Change.succeeded], by simp [Change.succeeded],
        fun _ _ _ _ _ => follows_change (by simp), refused⟩
    | failed f h =>
      exact ⟨by simpa [Change.changed] using h.hash.trans hash,
        by simpa [Change.succeeded] using fun k => (h.counts k).trans (counts k),
        by simp, by simp [Change.sent, Change.succeeded], by simp [Change.succeeded],
        fun _ _ _ _ _ => follows_change (by simp), refused⟩
    | succeeded hash' counts' =>
      exact ⟨by simpa [Change.changed] using hash'.trans hash,
        fun k => by simp [counts', counts, Change.succeeded, eq_comm],
        by simp, by simp [Change.sent, Change.succeeded],
        by simp [Change.changed], fun _ _ _ _ _ => follows_change (by simp), refused⟩

theorem Fares.outcome {c : Change} (h : Fares setup who (w.beginEvent c.event).1
    (w.beginEvent c.event).2 c.commands c.answer w') : Outcome setup c w w' := by
  obtain ⟨e, commands, answer⟩ := c
  have he := h.expects
  simp only [beginEvent] at he
  split at he
  · obtain ⟨rfl, rfl, hresp⟩ := he
    exact .unsent hresp
  · split at he
    · obtain ⟨rfl, rfl, hresp⟩ := he
      exact .unsent hresp
    · next hv => exact Writes.outcome hv he

/-! ## Sequences of calls -/

namespace Changes

theorem trans {a b c : World} {cs' : List Change} (h : Changes setup a cs b)
    (h' : Changes setup b cs' c) : Changes setup a (cs ++ cs') c := by
  induction h' with
  | refl => simpa using h
  | beside _ hb ih => exact ih.beside hb
  | call _ hf ih =>
    rw [← List.append_assoc]
    exact ih.call hf

theorem outcome {c : Change} (h : Changes setup w cs w') (hc : c ∈ cs) :
    ∃ v v', Outcome setup c v v' := by
  induction h with
  | refl => cases hc
  | beside _ _ ih => exact ih hc
  | @call v v' _ c' _ _ hf ih =>
    rcases List.mem_append.1 hc with hc | hc
    · exact ih hc
    · rw [List.mem_singleton.1 hc]
      exact ⟨v, v', hf.outcome⟩

/-- The hash is the fold of the changes that were made. -/
theorem hash (h : Changes setup w cs w') : w'.store.hash setup.config.ownKey =
    (cs.filter (·.changed setup)).foldl (fun t c => c.event.write setup t)
      (w.store.hash setup.config.ownKey) := by
  induction h with
  | refl => rfl
  | beside _ hb ih => exact hb.hash.trans ih
  | @call _ _ cs c _ _ hf ih =>
    rw [hf.outcome.hash, ih, List.filter_append, List.foldl_append]
    cases hc : c.changed setup <;> simp [hc]

theorem counts (h : Changes setup w cs w') (k : EventKind) : w'.counters.get k.counter =
    w.counters.get k.counter + cs.countP fun c => c.event.kind = k ∧ c.answer = some .done := by
  induction h with
  | refl => rfl
  | beside _ hb ih => exact (hb.counts k).trans ih
  | @call _ _ cs c _ _ hf ih =>
    rw [hf.outcome.counts, ih, List.countP_append, Nat.add_assoc]
    simp [List.countP_singleton, Change.succeeded, and_comm]

end Changes

end World

theorem get?_foldl_of_ne {setup : Setup} {cs : List Change} {field : String}
    (h : ∀ c ∈ cs, c.event.address.text ≠ field) (t : Table String String) :
    (cs.foldl (fun t c => c.event.write setup t) t).get? field = t.get? field := by
  induction cs generalizing t with
  | nil => rfl
  | cons c cs ih =>
    rw [List.foldl_cons, ih fun c' hc => h c' (.tail _ hc), Event.get?_write,
      if_neg (h c (.head _))]

/-! ## Those who apply the messages -/

theorem replay_encode (e : Event) (as : List Address) : replay [e.encode] as =
    (Membership.apply ({ members := as } : Membership Actor) ⟨e.address.plain, e.kind⟩).members := by
  simp [replay, Event.decode_encode_plain]

theorem nodup_replay {as : List Address} (h : as.Nodup) (messages : List String) :
    (replay messages as).Nodup := by
  induction messages generalizing as with
  | nil => exact h
  | cons m messages ih =>
    rw [show m :: messages = [m] ++ messages from rfl, replay_append]
    refine ih ?_
    cases hd : Event.decode m with
    | error f => simpa [replay, hd] using h
    | ok e =>
      have happlied := Membership.nodup_apply (m := ({ members := as } : Membership Actor)) h e
      simpa [replay, hd] using happlied

/-- Messages about other addresses. -/
theorem mem_replay_of_ne {messages : List String} {a : Address}
    (h : ∀ m ∈ messages, ∃ e : Event, m = e.encode ∧ e.address.plain ≠ a) (as : List Address) :
    a ∈ replay messages as ↔ a ∈ as := by
  induction messages generalizing as with
  | nil => rfl
  | cons m messages ih =>
    obtain ⟨e, rfl, hne⟩ := h m (.head _)
    rw [show e.encode :: messages = [e.encode] ++ messages from rfl, replay_append,
      ih fun m' hm => h m' (.tail _ hm), replay_encode, Membership.mem_apply_of_ne hne]

/-- The message that is applied last about an address decides. -/
theorem mem_replay_last {before after : List String} {e : Event} {a : Address} {as : List Address}
    (ha : a.text = e.address.text) (hn : as.Nodup)
    (hbefore : ∀ m ∈ before, ∃ e' : Event, m = e'.encode)
    (hafter : ∀ m ∈ after, ∃ e' : Event, m = e'.encode ∧ e'.address.text ≠ e.address.text) :
    a ∈ replay (before ++ e.encode :: after) as ↔ a ∈ replay [e.encode] as := by
  rw [show before ++ e.encode :: after = (before ++ [e.encode]) ++ after by simp, replay_append,
    replay_append]
  have hother : ∀ e' : Event, e'.address.text ≠ e.address.text → e'.address.plain ≠ a := by
    rintro e' hne rfl
    exact hne (by rw [← ha, Address.text_plain])
  rw [mem_replay_of_ne fun m hm => ?later, replay_encode, replay_encode]
  case later =>
    obtain ⟨e', rfl, hne⟩ := hafter m hm
    exact ⟨e', rfl, hother e' hne⟩
  by_cases hp : e.address.plain = a
  · subst hp
    rw [Membership.mem_apply (nodup_replay hn before) ⟨e.address.plain, e.kind⟩,
      Membership.mem_apply hn ⟨e.address.plain, e.kind⟩]
  · -- the address has a flow label, so that no message can be about it
    rw [Membership.mem_apply_of_ne hp, Membership.mem_apply_of_ne hp]
    refine mem_replay_of_ne (fun m hm => ?_) as
    obtain ⟨e', rfl⟩ := hbefore m hm
    refine ⟨e', rfl, ?_⟩
    rintro rfl
    refine hp (Eq.trans ?_ (Address.plain_of_isPlain (Address.isPlain_plain _)))
    exact Address.plain_congr ha.symm

namespace World

variable {setup : Setup} {w w' : World} {cs : List Change}

theorem Changes.sent {c : Change} (h : Changes setup w cs w') (hc : c ∈ cs) :
    ∀ m ∈ c.sent, m = c.event.encode := by
  intro m hm
  obtain ⟨_, _, ho⟩ := h.outcome hc
  rw [ho.sent] at hm
  split at hm
  · exact List.mem_singleton.1 hm
  · cases hm

/-- A call that succeeded decides about the entry of its address, unless another call is about it
later. -/
theorem Changes.entry {before after : List Change} {c : Change}
    (h : Changes setup w (before ++ c :: after) w') (hc : c.answer = some .done)
    (hafter : ∀ c' ∈ after, c'.event.address.text ≠ c.event.address.text) :
    (w'.store.hash setup.config.ownKey).get? c.event.address.text = c.event.entry? setup := by
  obtain ⟨_, _, ho⟩ := h.outcome (c := c) (by simp)
  have hchanged : c.changed setup = true := ho.changed (by simpa [Change.succeeded] using hc)
  rw [h.hash, List.filter_append, List.filter_cons_of_pos hchanged, List.foldl_append,
    List.foldl_cons, get?_foldl_of_ne fun c' hc' => hafter c' (List.mem_of_mem_filter hc'),
    Event.get?_write, if_pos rfl]

/-- Whoever applies the messages in order ends with what such a call says of its address. -/
theorem Changes.replay {before after : List Change} {c : Change}
    (h : Changes setup w (before ++ c :: after) w') (hc : c.answer = some .done)
    (hafter : ∀ c' ∈ after, c'.event.address.text ≠ c.event.address.text) {a : Address}
    (ha : a.text = c.event.address.text) {as : List Address} (hn : as.Nodup) :
    a ∈ Muster.replay ((before ++ c :: after).flatMap Change.sent) as ↔
      a ∈ Muster.replay [c.event.encode] as := by
  obtain ⟨_, _, ho⟩ := h.outcome (c := c) (by simp)
  have hsent : c.sent = [c.event.encode] := by simp [ho.sent, Change.succeeded, hc]
  rw [List.flatMap_append, List.flatMap_cons, hsent, List.singleton_append]
  refine mem_replay_last ha hn (fun m hm => ?_) fun m hm => ?_
  · obtain ⟨c', hc', hm⟩ := List.mem_flatMap.1 hm
    exact ⟨c'.event, h.sent (by simp [hc']) m hm⟩
  · obtain ⟨c', hc', hm⟩ := List.mem_flatMap.1 hm
    exact ⟨c'.event, h.sent (by simp [hc']) m hm, hafter c' hc'⟩

/-! ## Given calls -/

/-- Makes the steps of a call with nothing beside it, so many at most. -/
def serve (setup : Setup) (who : Actor) :
    Nat → World → Progress → List (StoreCall × Option Fault) × Option Answer × World
  | _, w, .finished a => ([], some a, w)
  | 0, w, .paused stage => ([], none, w.abandon who stage)
  | n + 1, w, .paused stage =>
    match w.resume setup who stage with
    | none => ([], none, w.abandon who stage)
    | some (v, p) =>
      let ms := v.trace.take (v.trace.length - w.trace.length)
      if v.trace = ms ++ w.trace then
        let r := serve setup who n v p
        (ms.reverse.filterMap (Mark.command? who) ++ r.1, r.2)
      else ([], none, w.abandon who stage)

theorem fares_serve (setup : Setup) (who : Actor) (n : Nat) (w : World) (p : Progress) :
    Fares setup who w p (w.serve setup who n p).1 (w.serve setup who n p).2.1
      (w.serve setup who n p).2.2 := by
  induction n generalizing w p with
  | zero => cases p <;> constructor
  | succ n ih =>
    cases p with
    | finished a => exact .answered
    | paused stage =>
      unfold serve
      split
      · exact .dropped
      · next v p hr =>
        dsimp only
        split
        · next hm => exact .went hr hm (ih v p)
        · exact .dropped

/-- Makes calls one after another with nothing beside them. -/
def serveAll (setup : Setup) (who : Actor) (w : World) : List Event → List Change × World
  | [] => ([], w)
  | e :: rest =>
    let r := (w.beginEvent e).1.serve setup who 4 (w.beginEvent e).2
    let s := r.2.2.serveAll setup who rest
    (⟨e, r.1, r.2.1⟩ :: s.1, s.2)

theorem changes_serveAll (setup : Setup) (who : Actor) (w : World) (es : List Event) :
    Changes setup w (w.serveAll setup who es).1 (w.serveAll setup who es).2 := by
  induction es generalizing w with
  | nil => exact .refl
  | cons e es ih =>
    have hcall := Changes.refl.call (c := ⟨e, _, _⟩) (fares_serve setup who 4 (w.beginEvent e).1
      (w.beginEvent e).2)
    exact hcall.trans (ih _)

end World

/-! ## What is written, sent and read -/

/-- An address that comes about is read from its text, and an event on it from its message. So the
field that a register call writes and the message that it publishes are read as the same address. -/
theorem Address.round_trip {a : Address} (ha : a.Made) (kind : EventKind) :
    Address.ofText? a.text = some a ∧ Event.decode (Event.encode ⟨a, kind⟩) = .ok ⟨a, kind⟩ ∧
    ∀ (setup : Setup) (w w' : World) (c : Change), World.Changes setup w [c] w' →
      c.event = .register a →
      (∀ key field value fault, (StoreCall.setField key field value, fault) ∈ c.commands →
        addressesOf [(field, value)] = [a]) ∧
      (∀ key message fault, (StoreCall.publish key message, fault) ∈ c.commands →
        Event.decode message = .ok (.register a)) ∧
      (c.answer = some .done → w'.store.Lists setup.config.ownKey a) := by
  have hplain := Address.made_iff_isPlain.1 ha
  have htext := Address.ofText?_text hplain
  refine ⟨htext, Event.decode_encode hplain, fun setup w w' c hcalls hc => ?_⟩
  obtain ⟨_, _, ho⟩ := hcalls.outcome (c := c) (by simp)
  have hchange : c.event.change setup =
      .setField setup.config.ownKey a.text setup.config.identity := by rw [hc]; rfl
  refine ⟨fun key field value fault hmem => ?_, fun key message fault hmem => ?_, fun hdone => ?_⟩
  · rcases ho.commands _ hmem with hcall | hcall
    · obtain ⟨-, rfl, -⟩ := StoreCall.setField.inj (hcall.trans hchange)
      simp [addressesOf, htext]
    · cases hcall
  · rcases ho.commands _ hmem with hcall | hcall
    · cases hcall.trans hchange
    · obtain ⟨-, rfl⟩ := StoreCall.publish.inj hcall
      rw [hc]
      exact Event.decode_encode hplain
  · have hcalls' : World.Changes setup w ([] ++ c :: []) w' := hcalls
    have hentry := hcalls'.entry hdone (by simp)
    rw [hc] at hentry
    refine Memory.lists_iff.2 ⟨a.text, ?_, htext⟩
    rw [Table.contains, show (w'.store.hash setup.config.ownKey).get? a.text = _ from hentry]
    rfl

/-- An IPv4-mapped address with a scope is registered. -/
theorem Address.round_trip_mapped :
    let a : Address := .v6 #v[0, 0, 0, 0, 0, 0xffff, 0x0a00, 1] 8091 0 3
    a.Made ∧ a.text = "[::ffff:10.0.0.1%3]:8091" ∧
    Address.ofText? "[::ffff:10.0.0.1%3]:8091" = some a ∧
    Event.decode "[::ffff:10.0.0.1%3]:8091-UNREGISTER" = .ok ⟨a, .unregister⟩ ∧
    ∃ c w', World.Changes (.mapped "me@here" "c") { store := .usual } [c] w' ∧
      c.answer = some .done ∧ w'.store.Lists "registry.redis.c" a := by
  intro a
  have htext : a.text = "[::ffff:10.0.0.1%3]:8091" := by decide +kernel
  have hread : Address.ofText? "[::ffff:10.0.0.1%3]:8091" = some a := by decide +kernel
  have hmade : a.Made := .read hread
  obtain ⟨htext', hdecode, hcalls⟩ := Address.round_trip hmade .unregister
  have hcall := World.changes_serveAll (.mapped "me@here" "c") (.call 0) { store := .usual }
    [.register a]
  rw [show (World.serveAll (.mapped "me@here" "c") (.call 0) { store := .usual } [.register a]).1 =
    [⟨.register a, [(.setField "registry.redis.c" a.text "me@here", none),
      (.publish "registry.redis.c" (Event.register a).encode, none)], some .done⟩] by
    decide +kernel] at hcall
  refine ⟨hmade, htext, htext ▸ htext', ?_, _, _, hcall, rfl, ?_⟩
  · rw [← show (⟨a, .unregister⟩ : Event).encode = "[::ffff:10.0.0.1%3]:8091-UNREGISTER" by
      decide +kernel]
    exact hdecode
  · exact (hcalls _ _ _ _ hcall rfl).2.2 rfl

namespace World

variable {setup : Setup} {w w' : World} {cs : List Change}

/-! ## What calls under faults come to -/

/-- Register and unregister calls whose commands may fail. What a call publishes follows its own
change of the hash; an address that is refused causes no command; the hash is the fold of the
changes that were made and the counters are the numbers of calls that succeeded. A call that was
repeated until it succeeded, with calls for other addresses in between and after it, leaves the
entry and the membership of its address as one clean call does. -/
theorem changes_under_faults (h : Changes setup w cs w') :
    (∀ c ∈ cs, ∀ before key message fault after,
      c.commands = before ++ (.publish key message, fault) :: after →
        key = setup.config.ownKey ∧ message = c.event.encode ∧
          (c.event.change setup, none) ∈ before) ∧
    (∀ c ∈ cs, ∀ f, c.event.address.validate = .error f →
      c.commands = [] ∧ ∃ f', c.answer = some (.failed f')) ∧
    w'.store.hash setup.config.ownKey =
      (cs.filter (·.changed setup)).foldl (fun t c => c.event.write setup t)
        (w.store.hash setup.config.ownKey) ∧
    w'.counters.registrations = w.counters.registrations +
      cs.countP (fun c => c.event.kind = .register ∧ c.answer = some .done) ∧
    w'.counters.unregistrations = w.counters.unregistrations +
      cs.countP (fun c => c.event.kind = .unregister ∧ c.answer = some .done) ∧
    ∀ before last after, cs = before ++ last :: after → last.answer = some .done →
      (∀ c ∈ after, c.event.address.text ≠ last.event.address.text) →
      ∀ clean v, Changes setup w [clean] v → clean.event = last.event →
        clean.answer = some .done →
        (w'.store.hash setup.config.ownKey).get? last.event.address.text =
          (v.store.hash setup.config.ownKey).get? last.event.address.text ∧
        ∀ (as : List Address) (a : Address), as.Nodup → a.text = last.event.address.text →
          (a ∈ replay (cs.flatMap Change.sent) as ↔ a ∈ replay clean.sent as) := by
  refine ⟨fun c hc => ?_, fun c hc => ?_, h.hash, h.counts .register, h.counts .unregister, ?_⟩
  · obtain ⟨_, _, ho⟩ := h.outcome hc
    exact ho.follows
  · obtain ⟨_, _, ho⟩ := h.outcome hc
    exact ho.refused
  · rintro before last after rfl hdone hafter clean v hclean hsame hcleanDone
    have hclean' : Changes setup w ([] ++ clean :: []) v := hclean
    refine ⟨?_, fun as a hn ha => ?_⟩
    · rw [h.entry hdone hafter, ← hsame]
      exact (hclean'.entry hcleanDone (by simp)).symm
    · rw [h.replay hdone hafter ha hn, ← hsame]
      simpa using (hclean'.replay hcleanDone (by simp) (hsame ▸ ha) hn).symm

/-- A call whose announcement failed is made again, after one for another address. -/
theorem changes_under_faults_retry :
    let setup := Setup.mapped "me@here" "c"
    let w : World := { store := .usual, faults := ⟨[(.publish, [Memory.down])]⟩ }
    let a : Address := .v4 #v[10, 0, 0, 1] 8091
    let b : Address := .v4 #v[10, 0, 0, 2] 8091
    let failed : Change := ⟨.register a,
      [(.setField "registry.redis.c" "10.0.0.1:8091" "me@here", none),
        (.publish "registry.redis.c" "10.0.0.1:8091-REGISTER", some Memory.down)],
      some (.failed Memory.down)⟩
    let clean (a : Address) : Change := ⟨.register a,
      [(.setField "registry.redis.c" a.text "me@here", none),
        (.publish "registry.redis.c" (Event.register a).encode, none)], some .done⟩
    ∃ w' v, Changes setup w [failed, clean b, clean a] w' ∧ Changes setup w [clean a] v ∧
      w'.counters.registrations = 2 ∧
      (w'.store.hash "registry.redis.c").get? "10.0.0.1:8091" =
        (v.store.hash "registry.redis.c").get? "10.0.0.1:8091" ∧
      ∀ as : List Address, as.Nodup →
        (a ∈ replay ["10.0.0.2:8091-REGISTER", "10.0.0.1:8091-REGISTER"] as ↔
          a ∈ replay ["10.0.0.1:8091-REGISTER"] as) := by
  intro setup w a b failed clean
  have hmade := changes_serveAll setup (.call 0) w [.register a, .register b, .register a]
  rw [show (w.serveAll setup (.call 0) [.register a, .register b, .register a]).1 =
    [failed, clean b, clean a] by decide +kernel] at hmade
  have hlaid : Changes setup w [] { w with faults := {} } := Changes.refl.beside (.quiet rfl rfl)
  have hclean :=
    hlaid.trans (changes_serveAll setup (.call 0) { w with faults := {} } [.register a])
  rw [show (World.serveAll setup (.call 0) { w with faults := {} } [.register a]).1 = [clean a] by
    decide +kernel] at hclean
  obtain ⟨-, -, -, hcount, -, hretry⟩ := changes_under_faults hmade
  obtain ⟨hentry, hmember⟩ :=
    hretry [failed, clean b] (clean a) [] rfl rfl (by simp) (clean a) _ hclean rfl rfl
  exact ⟨_, _, hmade, hclean, hcount, hentry, fun as hn => hmember as a hn rfl⟩

end World

end Muster
