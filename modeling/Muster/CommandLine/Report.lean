import Muster.CommandLine.Arguments
import Muster.Client.Action
import Muster.Yaml.Printer

/-!
# Reports

What a run of the command line prints: a line for a change, a document for the members of a
cluster, and for a failure what was being done and the chain of causes.

| here | in the program |
| --- | --- |
| `Failure` | an error that leaves `main`, with its context |
| `causes` | the errors behind an `Error` |
| `viewLines` | a `MembershipView` as a document, in `run` and `watch` |
-/
namespace Muster.CommandLine

/-- What a run leaves behind. -/
structure Outcome where
  code : Nat
  stdout : List String := []
  stderr : List String := []
deriving DecidableEq, Repr

/-! ## Failures -/

/-- Why a run failed, and what was being done, if that is said. -/
structure Failure where
  doing : Option String
  fault : Fault
deriving DecidableEq, Repr

/-- The causes behind a fault. -/
def causes : Fault → List String
  | .io m => [m]
  | _ => []

/-- The text of the fault goes on with words that the server or the reader of documents chose;
the report stops there. -/
def isOpenEnded : Fault → Bool
  | .redis | .yaml => true
  | _ => false

def lines (s : String) : List String := s.splitOn "\n"

/-- One of several causes: numbered, with its further lines below the text. -/
def numbered (n : Nat) (cause : String) : List String :=
  match lines cause with
  | [] => []
  | l :: rest =>
    let digits := Text.decimal n
    (String.ofList (List.replicate (5 - digits.length) ' ') ++ digits ++ ": " ++ l)
      :: rest.map ("       " ++ ·)

/-- Causes, outermost first. A single one has no number. -/
def chain : List String → List String
  | [] => []
  | [cause] => "" :: "Caused by:" :: (lines cause).map ("    " ++ ·)
  | cs => "" :: "Caused by:" :: (cs.mapIdx numbered).flatten

namespace Failure

def report (f : Failure) : List String :=
  let m := f.fault.message
  match f.doing with
  | none => lines ("Error: " ++ m) ++ (if isOpenEnded f.fault then [] else chain (causes f.fault))
  | some doing =>
    lines ("Error: " ++ doing) ++
      (if isOpenEnded f.fault then "" :: "Caused by:" :: numbered 0 m
      else chain (m :: causes f.fault))

/-- The outcome of a run that failed after it had printed something. -/
def outcome (f : Failure) (printed : List String) : Outcome :=
  { code := 1, stdout := printed, stderr := f.report }

end Failure

/-- The outcome for faulty arguments. -/
def ArgumentFault.outcome (f : ArgumentFault) : Outcome :=
  { code := 2, stderr := (lines f.message).take 1 }

/-! ## Members -/

/-- A key and its value in a mapping. -/
def entry (key value : String) : List String :=
  match Yaml.scalarLines value with
  | [] => [key ++ ":"]
  | l :: rest => (key ++ ": " ++ l) :: rest

/-- An item of a sequence. -/
def item (value : String) : List String :=
  match Yaml.scalarLines value with
  | [] => ["-"]
  | l :: rest => ("- " ++ l) :: rest

/-- The document for a view; `stamp` stands for the times that are known. -/
def viewLines (stamp : String) (v : View) : List String :=
  let time (known : Bool) : String := if known then stamp else "null"
  entry "cluster" v.cluster
    ++ (if v.addresses = [] then ["addresses: []"]
      else "addresses:" :: v.addresses.flatMap fun a => item a.text)
    ++ entry "status" v.status.text
    ++ ["last_event_at: " ++ time v.touched, "initialized_at: " ++ time v.loaded,
      "stale: " ++ (if v.stale then "true" else "false")]

end Muster.CommandLine
