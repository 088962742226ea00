import Muster.Client.Action
import Muster.Text.Utf8

/-!
# Requests and replies

What a client sends to a store server on one connection and what comes back, how a reply answers a
command of the registry, and how a payload of a channel is read.

| here | in the program |
| --- | --- |
| `Request.words` | the commands that `RedisStore` and `ping` send |
| `Reply.answer` | what the methods of `RedisStore` make of a reply |
| `payloadText` | `payload_text` |
-/
namespace Muster

/-- A request on a connection. -/
inductive Request where
  | auth (password : String)
  | select (db : Int)
  | ping
  | command (call : StoreCall)
deriving DecidableEq, Repr

/-- The name of a request and its arguments. -/
def Request.words : Request → List String
  | auth password => ["AUTH", password]
  | select db => ["SELECT", Text.decimalInt db]
  | ping => ["PING"]
  | command (.setField k f v) => ["HSET", k, f, v]
  | command (.deleteField k f) => ["HDEL", k, f]
  | command (.readFields k) => ["HGETALL", k]
  | command (.publish k m) => ["PUBLISH", k, m]
  | command (.subscribe k) => ["SUBSCRIBE", k]

def Request.name (r : Request) : String := r.words.headD ""

inductive Reply where
  | status
  | integer (value : Int)
  | fields (value : List (String × String))
  /-- The server refuses the request. -/
  | error
  /-- The connection is gone before a reply comes. -/
  | lost
deriving DecidableEq, Repr

namespace Reply

def isStatus : Reply → Bool
  | status => true
  | _ => false

/-- The answer that a reply gives to a command. Setting a field and subscribing succeed with any
reply that is no error; the other commands need a reply of their kind. -/
def answer (call : StoreCall) (r : Reply) : Except Fault Answer :=
  match call, r with
  | _, .error | _, .lost => .error .redis
  | .setField _ _ _, _ | .subscribe _, _ => .ok .done
  | .deleteField _ _, .integer n => .ok (.truth (0 < n))
  | .publish _ _, .integer n => .ok (.number n.toNat)
  | .readFields _, .fields fs => .ok (.fields fs)
  | _, _ => .error .redis

/-- Reads an integer, a status or an error in the form in which they are sent. -/
def ofText? (s : String) : Option Reply :=
  match (Text.trim s).toList with
  | ':' :: digits => (Text.signed? 64 (String.ofList digits)).map integer
  | '+' :: _ => some status
  | '-' :: _ => some error
  | _ => none

end Reply

/-- The message that a payload on a channel is. Payloads are text. -/
def payloadText (channel : String) (payload : List UInt8) : Except Fault String :=
  match Text.Utf8.decode payload with
  | .ok text => .ok text
  | .error f => .error (.protocol ("non-UTF-8 payload on " ++ channel ++ ": " ++ f.message))

end Muster
