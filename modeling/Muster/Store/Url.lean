import Muster.Address.Parser
import Muster.Text.Blank
import Muster.Text.Percent
import Muster.Text.Utf8

/-!
# Store URLs

What the URL of a store names: a host and a port, a database, and the credentials that a new
connection presents. The host is a name without any of the characters that delimit a URL, or an
IPv6 address in brackets; tabs and line breaks anywhere are passed over.

`StoreUrl.ofText?` is what opening a client comes to in `new` of `RedisStore`, which reads the text
of `redis_url`.
-/
namespace Muster

structure StoreUrl where
  user : Option String
  password : Option String
  host : String
  port : Nat
  db : Int
deriving DecidableEq, Repr

namespace StoreUrl

/-- The authority of a URL ends at one of these. -/
def endsAuthority (c : Char) : Bool := c == '/' || c == '?' || c == '#'

/-- Characters that no host name holds. -/
def isForbidden (c : Char) : Bool := c.toNat = 0 || " #/:<>?@[\\]^|".toList.contains c

/-- Splits at the last `@`: the credentials, if there are any, and the server. -/
def splitCredentials : List Char → Option (List Char) × List Char
  | [] => (none, [])
  | c :: rest =>
    match splitCredentials rest with
    | (some before, after) => (some (c :: before), after)
    | (none, after) => if c = '@' then (some [], after) else (none, c :: after)

/-- Splits at the first colon outside brackets. -/
def splitPort (inside : Bool) : List Char → List Char × Option (List Char)
  | [] => ([], none)
  | c :: rest =>
    if c = ':' ∧ inside = false then ([], some rest)
    else
      let inside := if c = '[' then true else if c = ']' then false else inside
      let (host, port) := splitPort inside rest
      (c :: host, port)

/-- An IPv6 address in brackets, or a name. -/
def host? (cs : List Char) : Option String :=
  match cs with
  | '[' :: inner =>
    if inner.getLast? = some ']' then
      (Address.Parser.whole (Address.Parser.groups inner.dropLast)).map fun g => (Ip.v6 g).text
    else none
  | _ => if cs = [] ∨ cs.any isForbidden then none else some (String.ofList cs)

/-- A port below 65536, the usual one if none is written, and what follows a backslash. -/
def port? : Option (List Char) → Option (Nat × List Char)
  | none => some (6379, [])
  | some cs =>
    let digits := cs.takeWhile (Text.isDigit 10)
    let rest := cs.dropWhile (Text.isDigit 10)
    if rest ≠ [] ∧ rest.head? ≠ some '\\' then none
    else if digits = [] then some (6379, rest)
    else if Text.digitsValue 10 digits < 65536 then some (Text.digitsValue 10 digits, rest)
    else none

/-- A decoded credential; an empty one counts as none. -/
def credential? (cs : List Char) : Option (Option String) :=
  if cs = [] then some none
  else
    match Text.Utf8.decode (Text.percentDecode cs) with
    | .ok s => some (some s)
    | .error _ => none

/-- A segment with its escaped dots written out. -/
def plainDots : List Char → List Char
  | [] => []
  | '%' :: '2' :: 'e' :: rest => '.' :: plainDots rest
  | '%' :: '2' :: 'E' :: rest => '.' :: plainDots rest
  | c :: rest => c :: plainDots rest

/-- The segments of a path after one `.` or `..` per segment has been resolved. -/
def resolveDots (segments : List (List Char)) : List (List Char) :=
  let step (kept : List (List Char)) (s : List Char) : List (List Char) :=
    if plainDots s = ['.', '.'] then kept.dropLast
    else if plainDots s = ['.'] then kept
    else kept ++ [s]
  segments.foldl step []

/-- The database that a path names; none is the first. -/
def db? (path : List Char) : Option Int :=
  let segments := resolveDots (path.splitOn '/')
  let joined := ['/'].intercalate segments
  let name := Text.dropWhileEnd (· == '/') (joined.dropWhile (· == '/'))
  if name = [] then some 0 else Text.signed? 64 (String.ofList name)

/-- Reads the URL of a store. -/
def ofText? (s : String) : Option StoreUrl := do
  let cs := s.toList.filter fun c => !(c == '\t' || c == '\n' || c == '\r')
  let rest ← if cs.take 8 = "redis://".toList then some (cs.drop 8) else none
  let (credentials, server) := splitCredentials (rest.takeWhile fun c => !endsAuthority c)
  let (hostText, portText) := splitPort false server
  let host ← host? hostText
  let (port, afterPort) ← port? portText
  let (userText, colon) := splitPort false (credentials.getD [])
  let user ← credential? userText
  let password ← credential? (colon.getD [])
  let path := afterPort ++ (rest.dropWhile fun c => !endsAuthority c)
  let db ← db? (path.takeWhile fun c => !(c == '?' || c == '#'))
  pure { user, password, host, port, db }

end StoreUrl

end Muster
