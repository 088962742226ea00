import Muster.Address.Parser
import Muster.Text.Blank

/-!
# Command-line arguments

What the words of a command line ask for: options, then a command with one argument. Options that
are not given come from the environment, and then have defaults. Of several faults the first in
the order of reading is reported; an option's value is checked when the next option comes, or
else after the command.

| here | in the program |
| --- | --- |
| `Invocation`, `Command` | `Args`, `Command` |
| `addressArgument` | `parse_address` |
| `Invocation.ofWords`, `ArgumentFault` | what the reader of arguments derives from `Args` |
-/
namespace Muster.CommandLine

/-- The name of the program. -/
def programName : String := "registryctl"

inductive Command where
  /-- Announce an address in the configured cluster. -/
  | register (address : Address)
  /-- Withdraw an address from the configured cluster. -/
  | unregister (address : Address)
  /-- Print the members of the cluster that a key maps to. -/
  | lookup (key : String)
  /-- Print the members on every change. -/
  | watch (key : String)
deriving DecidableEq, Repr

structure Invocation where
  /-- The file that holds the settings. -/
  config : String
  logLevel : String
  logJson : Bool
  command : Command
deriving DecidableEq, Repr

/-! ## Faults -/

inductive ArgumentFault where
  /-- There are no arguments at all. -/
  | nothing
  | noCommand
  | unknownCommand (word : String)
  | unexpected (word : String)
  /-- An option lacks its value. -/
  | noValue (option : String)
  /-- An option that takes no value has one. -/
  | surplusValue (value option : String)
  | repeated (option : String)
  /-- A command lacks its argument. -/
  | missing
  | invalid (value name : String) (reason : Option String)
deriving DecidableEq, Repr

/-- The first line of the complaint. Without any arguments it is the description of the program. -/
def ArgumentFault.message : ArgumentFault → String
  | nothing => "Registry Control - register, look up and watch cluster members"
  | noCommand => "error: '" ++ programName ++ "' requires a subcommand but one was not provided"
  | unknownCommand w => "error: unrecognized subcommand '" ++ w ++ "'"
  | unexpected w => "error: unexpected argument '" ++ w ++ "' found"
  | noValue o => "error: a value is required for '" ++ o ++ "' but none was supplied"
  | surplusValue v o =>
    "error: unexpected value '" ++ v ++ "' for '" ++ o ++ "' found; no more were expected"
  | repeated o => "error: the argument '" ++ o ++ "' cannot be used multiple times"
  | missing => "error: the following required arguments were not provided:"
  | invalid v n none => "error: invalid value '" ++ v ++ "' for '" ++ n ++ "'"
  | invalid v n (some reason) =>
    "error: invalid value '" ++ v ++ "' for '" ++ n ++ "': " ++ reason

/-! ## Words -/

/-- The shape of a word. -/
inductive Word where
  /-- What follows is no option, whatever it looks like. -/
  | escape
  /-- A long option, and the value after an equals sign. -/
  | long (name : String) (value : Option String)
  /-- A short option. -/
  | short (letter : Char)
  | plain
deriving DecidableEq, Repr

def wordOf (s : String) : Word :=
  match s.toList with
  | ['-', '-'] => .escape
  | '-' :: '-' :: cs =>
    .long (String.ofList (cs.takeWhile (· ≠ '=')))
      (match cs.dropWhile (· ≠ '=') with
        | [] => none
        | _ :: value => some (String.ofList value))
  | '-' :: c :: _ => .short c
  | _ => .plain

/-! ## The argument of a command -/

inductive CommandName where
  | register
  | unregister
  | lookup
  | watch
deriving DecidableEq, Repr

def CommandName.ofText? : String → Option CommandName
  | "register" => some register
  | "unregister" => some unregister
  | "lookup" => some lookup
  | "watch" => some watch
  | _ => none

/-- An address on the command line may carry blanks at its ends. -/
def addressArgument (raw : String) : Except ArgumentFault Address :=
  match Address.ofText (Text.trim raw) with
  | .ok a => .ok a
  | .error f => .error (.invalid raw "<ADDRESS>" (some f.message))

/-- The words after a command: exactly one, and no option. -/
def onlyWord (escaped : Bool) (found : Option String) :
    List String → Except ArgumentFault (Option String)
  | [] => .ok found
  | s :: rest =>
    let take : Except ArgumentFault (Option String) :=
      if found.isSome then .error (.unexpected s) else onlyWord escaped (some s) rest
    if escaped then take
    else
      match wordOf s with
      | .escape => onlyWord true found rest
      | .long name _ => .error (.unexpected ("--" ++ name))
      | .short c => .error (.unexpected (String.ofList ['-', c]))
      | .plain => take

def readCommand (name : CommandName) (words : List String) : Except ArgumentFault Command := do
  match ← onlyWord false none words with
  | none => throw .missing
  | some w =>
    match name with
    | .register => (addressArgument w).map .register
    | .unregister => (addressArgument w).map .unregister
    | .lookup => pure (.lookup w)
    | .watch => pure (.watch w)

/-! ## Options -/

/-- The options that take a value. -/
inductive ValueOption where
  | config
  | logLevel
deriving DecidableEq, Repr

def ValueOption.text : ValueOption → String
  | config => "--config <CONFIG>"
  | logLevel => "--log-level <LOG_LEVEL>"

def logJsonText : String := "--log-json"

/-- The options read so far. The newest one may still lack its value, and is not checked yet. -/
structure Options where
  config : Option String := none
  logLevel : Option String := none
  logJson : Bool := false
  newest : Option (ValueOption × Option String) := none
deriving DecidableEq, Repr

namespace Options

def get? (o : Options) : ValueOption → Option String
  | .config => o.config
  | .logLevel => o.logLevel

/-- Checks the newest option and files its value. -/
def file (o : Options) : Except ArgumentFault Options :=
  match o.newest with
  | none => .ok o
  | some (option, none) => .error (.noValue option.text)
  | some (option, some v) =>
    if (o.get? option).isSome then .error (.repeated option.text)
    else
      match option with
      | .config =>
        if v = "" then .error (.noValue option.text)
        else .ok { o with config := some v, newest := none }
      | .logLevel => .ok { o with logLevel := some v, newest := none }

/-- An option that takes a value begins. -/
def open? (o : Options) (option : ValueOption) (value : Option String) :
    Except ArgumentFault Options := do
  let o ← o.file
  let o := { o with newest := some (option, value) }
  if value.isSome then o.file else pure o

/-- The switch for JSON logs. -/
def switch (o : Options) (value : Option String) : Except ArgumentFault Options := do
  match value with
  | some v => throw (.surplusValue v logJsonText)
  | none =>
    let o ← o.file
    if o.logJson then throw (.repeated logJsonText) else pure { o with logJson := true }

/-- The newest option waits for its value. -/
def awaitsValue (o : Options) : Bool :=
  match o.newest with
  | some (_, none) => true
  | _ => false

def isEmpty (o : Options) : Bool := o.config.isNone && o.logLevel.isNone && !o.logJson

end Options

/-- A word where a command was expected but none can be. -/
def strayWord (s : String) : ArgumentFault :=
  if (CommandName.ofText? s).isSome || s = "help" then .unexpected s else .unknownCommand s

/-- Reads options up to a command; answers the command and the words after it. -/
def readOptions (o : Options) :
    List String → Except ArgumentFault (Options × Option (CommandName × List String))
  | [] => .ok (o, none)
  | s :: rest =>
    match wordOf s with
    | .escape =>
      match rest with
      | [] => .ok (o, none)
      | w :: _ => .error (strayWord w)
    | .long "config" value => do readOptions (← o.open? .config value) rest
    | .long "log-level" value => do readOptions (← o.open? .logLevel value) rest
    | .long "log-json" value => do readOptions (← o.switch value) rest
    | .long name _ => .error (.unexpected ("--" ++ name))
    | .short c => .error (.unexpected (String.ofList ['-', c]))
    | .plain =>
      match o.newest with
      | some (option, none) => readOptions { o with newest := some (option, some s) } rest
      | _ =>
        match CommandName.ofText? s with
        | some name => .ok (o, some (name, rest))
        | none => .error (.unknownCommand s)

/-! ## The environment -/

/-- The value of a variable of the environment. -/
abbrev Environment := String → Option String

namespace Options

/-- Takes options that were not given from the environment. -/
def complete (o : Options) (env : Environment) : Except ArgumentFault Options := do
  let config ← match o.config, env "REGISTRY_CONFIG" with
    | some v, _ => pure (some v)
    | none, some "" => throw (.noValue ValueOption.config.text)
    | none, v => pure v
  let logJson ← match o.logJson, env "LOG_JSON" with
    | true, _ | false, some "true" => pure true
    | false, none | false, some "false" => pure false
    | false, some "" => throw (.noValue logJsonText)
    | false, some v => throw (.invalid v logJsonText none)
  pure { o with config, logJson, logLevel := o.logLevel <|> env "LOG_LEVEL" }

end Options

/-- What the words of a command line ask for. -/
def Invocation.ofWords (env : Environment) (words : List String) :
    Except ArgumentFault Invocation := do
  let (o, name) ← readOptions {} words
  let command ← match name with
    | some (name, rest) => (readCommand name rest).map some
    | none => pure none
  let o ← o.file
  let full ← o.complete env
  match command with
  | some command =>
    pure {
      config := full.config.getD "registry.yaml"
      logLevel := full.logLevel.getD "info"
      logJson := full.logJson
      command }
  | none =>
    let silent := o.isEmpty && ["REGISTRY_CONFIG", "LOG_LEVEL", "LOG_JSON"].all fun v =>
      (env v).isNone
    throw (if silent then .nothing else .noCommand)

end Muster.CommandLine
