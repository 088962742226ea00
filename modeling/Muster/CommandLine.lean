import Muster.CommandLine.Report
import Muster.CommandLine.Watch
import Muster.Config.Flat
import Muster.Remote
import Muster.Schedule

/-!
# The command line

A run of the program: read the settings, set the client up, carry one command out, shut the client
down. The first step that fails decides the report.

| here | in the program |
| --- | --- |
| `runWords`, `run` | `main`, with `connect` of `RegistryClient` |
| `execute` | `run` |
| `watch`, `watchOn`, `follow` | `watch` |
-/
namespace Muster.CommandLine

/-- The surroundings of a run. -/
structure Site where
  /-- The identity of the running process. -/
  self : String
  /-- The text for a time. -/
  stamp : String
  /-- The store, as the client finds it. -/
  store : Memory
  /-- What others publish: one message after each printed view, then the user interrupts. -/
  messages : List (String × String) := []

/-- A message that is printed, or a view. -/
def outputLines (stamp : String) : Watch.Output → List String
  | .event m => ["# " ++ m]
  | .view v => viewLines stamp v

/-- Carries an action out and lets everybody come to rest. Answers nothing if the action would
wait for ever. -/
def carry (setup : Setup) (s : Schedule) (id : Nat) (a : Action) : Option Answer × Schedule :=
  let (r, s) := s.play setup [] id true (.act a)
  (r.answer, s)

/-- The failure of an action, if it failed. -/
def failure? (doing : String) : Option Answer → Option Failure
  | some (.failed f) => some ⟨some doing, f⟩
  | _ => none

/-- A watch goes on while it has messages, and everybody comes to rest in between. -/
def follow (setup : Setup) : Nat → Watch → Schedule → Watch × Schedule
  | 0, w, s => (w, s)
  | fuel + 1, w, s =>
    match { w with world := s.world }.step setup with
    | none => (w, s)
    | some w => follow setup fuel w ((s.adopt setup w.world).settle setup)

/-- The run of a watch after its first view: messages come one at a time as long as each leads to
a view. -/
def watchOn (setup : Setup) : List (String × String) → Watch → Schedule → Watch × Schedule
  | [], w, s => (w, s)
  | (key, message) :: rest, w, s =>
    let (_, s) := carry setup s w.nextCall (.send key [message])
    let before := w.printed.length
    let (w, s) := follow setup 1000 { w with nextCall := w.nextCall + 1 } s
    match w.position with
    | .waiting => if w.printed.length = before then (w, s) else watchOn setup rest w s
    | _ => (w, s)

/-- Watches a key. -/
def watch (site : Site) (setup : Setup) (s : Schedule) (key : String) : Outcome :=
  match carry setup s 0 (.view key) with
  | (some (.view v), s) =>
    let (_, s) := carry setup s 1 (.attach v.cluster notifier)
    let first : Watch := { key, world := s.world, nextCall := 2, printed := [.view v] }
    let (w, _) := watchOn setup site.messages first s
    let printed := w.printed.flatMap (outputLines site.stamp)
    match w.position with
    | .ended f => Failure.outcome ⟨none, f⟩ printed
    | _ => { code := 0, stdout := printed }
  | (some (.failed f), _) => Failure.outcome ⟨some ("lookup of '" ++ key ++ "' failed"), f⟩ []
  | _ => { code := 0 }

/-- Carries a command out. -/
def execute (site : Site) (setup : Setup) (command : Command) : Outcome :=
  let s : Schedule := { world := { store := site.store } }
  match command with
  | .register a =>
    match failure? ("failed to register " ++ a.text) (carry setup s 0 (.register a.text)).1 with
    | some f => f.outcome []
    | none =>
      { code := 0, stdout := lines ("registered " ++ a.text ++ " in " ++ setup.config.cluster) }
  | .unregister a =>
    match failure? ("failed to unregister " ++ a.text)
        (carry setup s 0 (.unregister a.text)).1 with
    | some f => f.outcome []
    | none =>
      { code := 0, stdout := lines ("unregistered " ++ a.text ++ " from " ++ setup.config.cluster) }
  | .lookup key =>
    match carry setup s 0 (.view key) with
    | (some (.view v), _) => { code := 0, stdout := viewLines site.stamp v }
    | (a, _) =>
      match failure? ("lookup of '" ++ key ++ "' failed") a with
      | some f => f.outcome []
      | none => { code := 0 }
  | .watch key => watch site setup s key

/-- Runs an invocation on the content of its settings file. -/
def run (site : Site) (i : Invocation) (content : Except Fault String) : Outcome :=
  match content.bind Settings.ofYaml with
  | .error f => Failure.outcome ⟨some ("failed to load " ++ i.config), f⟩ []
  | .ok settings =>
    let source := Source.ofTable settings
    let bad (f : Fault) := Failure.outcome ⟨some "invalid registry configuration", f⟩ []
    match ClientConfig.ofSource site.self source with
    | .error f => bad f
    | .ok config =>
      match Remote.launch config {} with
      | .refused f => bad f
      | .aborted => { code := 101 }
      | .ready _ => execute site { config, source } i.command

/-- Runs a command line; `load` reads a file. -/
def runWords (site : Site) (env : Environment) (load : String → Except Fault String)
    (words : List String) : Outcome :=
  match Invocation.ofWords env words with
  | .error f => f.outcome
  | .ok i => run site i (load i.config)

end Muster.CommandLine
