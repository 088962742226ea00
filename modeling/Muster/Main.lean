import Muster.CommandLine

/-!
# The program

Reads the environment and the settings file, runs the command line and prints what it leaves. The
program has no network of its own: it finds every server out of reach, as a client does while no
connection is accepted.
-/

/-- The environment variables that the command line looks at. -/
def environmentNames : List String :=
  ["REGISTRY_CONFIG", "LOG_LEVEL", "LOG_JSON", "HOSTNAME", "COMPUTERNAME"]

/-- The number of the running process. -/
def processNumber : IO String := do
  try
    let stat ← IO.FS.readFile "/proc/self/stat"
    pure (String.ofList (stat.toList.takeWhile (· ≠ ' ')))
  catch _ => pure "0"

/-- The content of a file, if it can be read. -/
def fileContent (path : String) : IO (Option (List UInt8)) := do
  try
    let bytes ← IO.FS.readBinFile path
    pure (some bytes.toList)
  catch _ => pure none

def main (args : List String) : IO UInt32 := do
  let mut values : Muster.Table String String := {}
  for name in environmentNames do
    if let some value ← IO.getEnv name then
      values := values.insert name value
  let env := values.get?
  let path := match Muster.CommandLine.Invocation.ofWords env args with
    | .ok i => i.config
    | .error _ => ""
  let content ← fileContent path
  let self := Muster.ClientConfig.processIdentity (← processNumber) env
  let site : Muster.CommandLine.Site := {
    self, stamp := "null", store := { Muster.Memory.usual with outage := some .redis } }
  let outcome :=
    Muster.CommandLine.runWords site env (fun _ => Muster.Settings.fileText content) args
  for line in outcome.stdout do
    IO.println line
  for line in outcome.stderr do
    IO.eprintln line
  pure outcome.code.toUInt32
