import Muster.Remote
import Muster.Proofs.Permits

/-!
# The remote store and its pool

Whatever is asked of the remote store, and however its server answers, all that happens to its
pool is that callers come, are given signals, and time passes. So what holds of every pool that
such acts lead to holds of the pool of the store (`Remote.reachable_of_launch`).
-/
namespace Muster

namespace Remote

variable {r r' : Remote} {id : Nat}

/-- Only acts have happened to the pool. -/
def Acts (r r' : Remote) : Prop := Pool.Reaches (fun _ _ => True) r.pool r'.pool

namespace Acts

theorem same (h : r'.pool = r.pool) : Acts r r' := by
  rw [Acts, h]
  exact .refl

theorem refl (r : Remote) : Acts r r := same rfl

theorem trans {r'' : Remote} (h : Acts r r') (h' : Acts r' r'') : Acts r r'' :=
  Pool.Reaches.trans h h'

theorem act {a : Pool.Act} (h : r.pool.act a = some r'.pool) : Acts r r' :=
  Pool.Reaches.refl.act h trivial

theorem signal {s : Pool.Signal} (h : r.signal id s = some r') : Acts r r' := by
  obtain ⟨pool, hstep, rfl⟩ := Option.map_eq_some_iff.1 h
  exact act (a := .signal id s) hstep

/-- A signal, if it means anything. -/
theorem signal_getD (r : Remote) (id : Nat) (s : Pool.Signal) :
    Acts r ((r.signal id s).getD r) := by
  cases h : r.signal id s with
  | none => exact refl r
  | some r' => exact signal h

theorem elapse (r : Remote) (nanos : Nat) : Acts r (r.elapse nanos) := act (a := .elapse nanos) rfl

theorem ping {conn : Nat} (h : r.ping id conn = some r') : Acts r r' :=
  (same rfl : Acts r { r with server := (r.server.request conn .ping).2 }).trans (signal h)

theorem finish {call : StoreCall} {reply : Reply} (h : r.finish id call reply = some r') :
    Acts r r' :=
  (same rfl : Acts r { r with answers := r.answers.insert id (reply.answer call) }).trans (signal h)

theorem send {conn : Nat} {call : StoreCall} (h : r.send id conn call = some r') : Acts r r' := by
  simp only [Remote.send] at h
  split at h
  · cases h
    exact same rfl
  · exact (same rfl : Acts r { r with server := (r.server.request conn (.command call)).2 }).trans
      (finish h)

theorem connect (r : Remote) : r.connect.2.pool = r.pool := by
  unfold Remote.connect
  split <;> rfl

theorem supply (h : r.supply id = some r') : Acts r r' := by
  have hpool := connect r
  unfold Remote.supply at h
  split at h <;> next hr =>
    rw [hr] at hpool
    exact (same hpool).trans (signal h)

theorem await {since : Nat} (h : r.await id since = some r') : Acts r r' := by
  unfold Remote.await at h
  split at h
  · exact signal h
  · split at h
    · cases h
    · exact (elapse r _).trans (signal h)

theorem advance (h : r.advance id = some r') : Acts r r' := by
  unfold Remote.advance at h
  split at h
  · exact ping h
  · exact ping h
  · exact ping h
  · exact supply h
  · exact supply h
  · exact await h
  · split at h
    · cases h
    · exact send h
  · split at h
    · cases h
    · exact send h
  · cases h

/-- A caller that goes on takes one step after another. -/
theorem run (id fuel : Nat) (r : Remote) : Acts r (Remote.run id fuel r) := by
  induction fuel generalizing r with
  | zero => exact refl r
  | succ fuel ih =>
    unfold Remote.run
    split
    · exact refl r
    · next r' h => exact (advance h).trans (ih r')

theorem begin (r : Remote) (call : StoreCall) : Acts r (r.begin call).2 := by
  have entered : ∀ (purpose : Purpose) (jobs : Table Nat StoreCall),
      Acts r { r with pool := r.pool.enter purpose, jobs } := fun purpose _ =>
    act (a := .enter purpose) rfl
  exact (entered _ _).trans (run _ _ _)

theorem resolve (r : Remote) (id : Nat) (reply : Reply) : Acts r (r.resolve id reply) := by
  unfold Remote.resolve
  split
  · exact refl r
  · next call _ =>
    split
    · next r' h =>
      exact ((same rfl : Acts r { r with withheld := r.withheld.erase id }).trans (finish h)).trans
        (run _ _ _)
    · exact refl r

theorem letGo (r : Remote) (id : Nat) : Acts r (r.letGo id) := by
  unfold Remote.letGo
  split
  · exact resolve r id _
  · exact refl r

theorem cutOff (r : Remote) : Acts r r.cutOff := by
  have resolved : ∀ (ids : List Nat) (r : Remote),
      Acts r (ids.foldl (fun r id => r.resolve id .lost) r) := by
    intro ids
    induction ids with
    | nil => exact refl
    | cons id ids ih => exact fun r => (resolve r id .lost).trans (ih _)
  exact (same rfl : Acts r { r with server := r.server.closeAll }).trans (resolved _ _)

theorem next (r : Remote) (id : Nat) : Acts r (r.next id).2 := by
  unfold Remote.next
  split
  · split
    · exact same rfl
    · split
      · exact refl r
      · exact signal_getD r id .failed
  · exact refl r

theorem drop (r : Remote) (id : Nat) : Acts r (r.drop id) := signal_getD r id .dropped

end Acts

/-! ## Runs -/

/-- What may happen to the store. -/
inductive Turn where
  /-- A command or a subscription is asked for. -/
  | begin (call : StoreCall)
  /-- The server sends a reply that it kept back. -/
  | letGo (caller : Nat)
  /-- The server closes all connections. -/
  | cutOff
  /-- A stream is read. -/
  | next (caller : Nat)
  | drop (caller : Nat)
  | elapse (nanos : Nat)
  /-- The server becomes any other: others send to it, it is given replies, it accepts no more. -/
  | serve (server : Server)

def turn (r : Remote) : Turn → Remote
  | .begin call => (r.begin call).2
  | .letGo id => r.letGo id
  | .cutOff => r.cutOff
  | .next id => (r.next id).2
  | .drop id => r.drop id
  | .elapse nanos => r.elapse nanos
  | .serve server => { r with server }

theorem Acts.turn (r : Remote) (t : Turn) : Acts r (r.turn t) := by
  cases t with
  | begin call => exact .begin r call
  | letGo id => exact .letGo r id
  | cutOff => exact .cutOff r
  | next id => exact .next r id
  | drop id => exact .drop r id
  | elapse nanos => exact .elapse r nanos
  | serve server => exact .same rfl

/-- Whatever happens to a store that was set up, its pool is one that the configuration leads to. -/
theorem reachable_of_launch {config : ClientConfig} {server : Server}
    (h : launch config server = .ready r) (turns : List Turn) :
    Pool.Reachable config.pool (turns.foldl turn r).pool := by
  have acts : ∀ (turns : List Turn) (r : Remote), Acts r (turns.foldl turn r) := by
    intro turns
    induction turns with
    | nil => exact .refl
    | cons t turns ih => exact fun r => (Acts.turn r t).trans (ih _)
  unfold launch at h
  split at h
  · cases h
  · cases h
  · next pool _ hpool =>
    cases h
    exact ⟨pool, hpool, acts turns { config, pool, server }⟩

/-- So the store never loses a permit, nor makes one up. -/
theorem permits_of_launch {config : ClientConfig} {server : Server}
    (h : launch config server = .ready r) (turns : List Turn) :
    (turns.foldl turn r).pool.permits + (turns.foldl turn r).pool.heldPermits =
      config.pool.effectiveMaxTotal :=
  (reachable_of_launch h turns).accounted.permits

end Remote

end Muster
