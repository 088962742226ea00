import Muster.Config
import Muster.Proofs.Numerals

/-!
# How settings are read

What the reader of a count makes of a setting (`Source.Counted`), and in which order the settings of
a client are read (`ClientConfig.ofSource_eq`, `PoolConfig.ofSource_eq`). What an accepted
configuration holds was read from the settings of its source (`ClientConfig.ReadFrom`).
-/
namespace Muster

section

variable {α β : Type}

theorem ok_bind (a : α) (f : α → Except Fault β) : (.ok a : Except Fault α) >>= f = f a := rfl

theorem error_bind (e : Fault) (f : α → Except Fault β) :
    (.error e : Except Fault α) >>= f = .error e := rfl

theorem throw_bind (e : Fault) (f : α → Except Fault β) :
    (throw e : Except Fault α) >>= f = .error e := rfl

theorem exists_of_bind_eq_ok {x : Except Fault α} {f : α → Except Fault β} {b : β}
    (h : x >>= f = .ok b) : ∃ a, x = .ok a ∧ f a = .ok b := by
  cases x with
  | error e => cases h
  | ok a => exact ⟨a, rfl, h⟩

end

namespace Source

variable {src : Source} {name : String} {n : Nat}

/-! ## Counts -/

/-- The setting writes this number. -/
def Gives (src : Source) (name : String) (n : Nat) : Prop :=
  ∃ raw, src.setting? name = some raw ∧ Text.Unsigned n raw.toList

/-- The setting is not there, or it is zero. -/
def IsUnset (src : Source) (name : String) : Prop :=
  src.setting? name = none ∨ src.Gives name 0

theorem Gives.unique {m : Nat} (h : src.Gives name n) (h' : src.Gives name m) : n = m := by
  obtain ⟨raw, hraw, hn⟩ := h
  obtain ⟨raw', hraw', hm⟩ := h'
  rw [hraw] at hraw'
  cases hraw'
  exact hn.unique hm

theorem Gives.not_isUnset (h : src.Gives name n) (hpos : 0 < n) : ¬ src.IsUnset name := by
  rintro (hnone | hzero)
  · obtain ⟨raw, hraw, -⟩ := h
    rw [hnone] at hraw
    cases hraw
  · have := h.unique hzero
    omega

/-- What a setting is read as where a count is wanted. -/
inductive Counted (src : Source) (name : String) : Except Fault (Option Nat) → Prop
  | unset (h : src.IsUnset name) : Counted src name (.ok none)
  | number {n : Nat} (h : src.Gives name n) (low : 0 < n) (high : n < 2 ^ 64) :
    Counted src name (.ok (some n))
  | malformed {raw : String} (h : src.setting? name = some raw)
    (no : ∀ n < 2 ^ 64, ¬ Text.Unsigned n raw.toList) :
    Counted src name (.error (bad name " must be a non-negative integer: " raw))

theorem counted (src : Source) (name : String) : Counted src name (src.count? name) := by
  unfold count?
  split
  · next h => exact .unset (.inl h)
  · next raw h =>
    split
    · next hnone => exact .malformed h (Text.unsigned?_eq_none_iff.1 hnone)
    · next hzero => exact .unset (.inr ⟨raw, h, (Text.unsigned?_eq_some_iff.1 hzero).1⟩)
    · next n hne hn =>
      obtain ⟨hn, hlt⟩ := Text.unsigned?_eq_some_iff.1 hn
      exact .number ⟨raw, h, hn⟩ (Nat.pos_of_ne_zero hne) hlt

theorem count?_eq_ok_none (h : src.count? name = .ok none) : src.IsUnset name := by
  have hcounted := src.counted name
  rw [h] at hcounted
  cases hcounted with
  | unset h => exact h

theorem count?_eq_ok_some (h : src.count? name = .ok (some n)) :
    src.Gives name n ∧ 0 < n ∧ n < 2 ^ 64 := by
  have hcounted := src.counted name
  rw [h] at hcounted
  cases hcounted with
  | number hgives hlow hhigh => exact ⟨hgives, hlow, hhigh⟩

/-! ## The order of reading -/

/-- The host and the port of the server, whose address has to be there. -/
def server (src : Source) : Except Fault (String × Nat) :=
  match src.setting? "serverAddr" with
  | some raw => ClientConfig.parseServerAddr raw
  | none => .error (.configuration ("missing " ++ registryPrefix ++ "serverAddr"))

/-- The number of the database. -/
def database (src : Source) : Except Fault Int :=
  match src.setting? "db" with
  | none => .ok 0
  | some raw =>
    match Text.signed? 64 raw with
    | some n => .ok n
    | none => .error (bad "db" " must be an integer: " raw)

theorem database_bounds {i : Int} (h : src.database = .ok i) : -(2 ^ 63) ≤ i ∧ i < 2 ^ 63 := by
  unfold database at h
  split at h
  · cases h
    decide
  · split at h
    · next hread =>
      cases h
      exact (Text.signed?_eq_some_iff.1 hread).2
    · cases h

/-- The wait limit under its second name, if the first is unset. -/
def waitLimit (src : Source) (wait : Option Duration) : Except Fault (Option Duration) :=
  match wait with
  | some d => .ok (some d)
  | none => src.millis? "timeout"

end Source

namespace PoolConfig

theorem ofSource_eq (src : Source) :
    ofSource src = (do
      let total ← src.count? "max.total"
      let active ← src.count? "max.active"
      let wait ← src.millis? "max.wait"
      let maxWait ← src.waitLimit wait
      let testOnBorrow ← src.flag "test.on.borrow" true
      let testOnReturn ← src.flag "test.on.return" false
      let testWhileIdle ← src.flag "test.while.idle" false
      let maxIdle ← src.narrowCount? "max.idle" 64
      let minIdle ← src.narrowCount? "min.idle" 64
      let tests ← src.narrowCount? "num.tests.per.eviction.run" 32
      let interval ← src.millis? "time.between.eviction.runs.millis"
      let evictable ← src.millis? "min.evictable.idle.time.millis"
      pure {
        testOnBorrow, testOnReturn, testWhileIdle, maxIdle, minIdle, maxWait
        maxTotal := total <|> active
        testsPerEvictionRun := tests
        evictionInterval := interval
        minEvictableIdle := evictable }) := by
  unfold ofSource
  refine bind_congr fun total => bind_congr fun active => bind_congr fun wait => ?_
  cases wait <;> rfl

/-- The limit of the connections in all is that of the newer name, or else of the older one. -/
theorem maxTotal_of_ofSource {src : Source} {p : PoolConfig} (h : ofSource src = .ok p) :
    ∃ total active, src.count? "max.total" = .ok total ∧ src.count? "max.active" = .ok active ∧
      p.maxTotal = (total <|> active) := by
  rw [ofSource_eq] at h
  obtain ⟨total, htotal, h⟩ := exists_of_bind_eq_ok h
  obtain ⟨active, hactive, h⟩ := exists_of_bind_eq_ok h
  refine ⟨total, active, htotal, hactive, ?_⟩
  iterate 10 obtain ⟨_, -, h⟩ := exists_of_bind_eq_ok h
  cases h
  rfl

end PoolConfig

namespace ClientConfig

theorem ofSource_eq (self : String) (src : Source) :
    ofSource self src = (do
      let server ← src.server
      let db ← src.database
      let pool ← PoolConfig.ofSource src
      let restart ← RestartPolicy.ofSource src
      pure {
        host := server.1, port := server.2, db, pool, restart
        cluster := (src.filled? "cluster").getD "default"
        password := src.filled? "password"
        identity := (src.filled? "identity").getD self }) := by
  unfold ofSource Source.server Source.database
  cases src.setting? "serverAddr" with
  | none => simp only [throw_bind, error_bind]
  | some raw =>
    simp only [pure_bind]
    refine bind_congr fun server => ?_
    cases src.setting? "db" with
    | none => rfl
    | some text =>
      cases hdb : Text.signed? 64 text with
      | none => simp only [hdb, throw_bind, error_bind]
      | some n => simp only [hdb, ok_bind]

/-- What the parts of a configuration were read from. -/
structure ReadFrom (src : Source) (c : ClientConfig) : Prop where
  server : ∃ raw, src.setting? "serverAddr" = some raw ∧ parseServerAddr raw = .ok (c.host, c.port)
  db : src.database = .ok c.db
  pool : PoolConfig.ofSource src = .ok c.pool
  restart : RestartPolicy.ofSource src = .ok c.restart
  password : c.password = src.filled? "password"

theorem readFrom_of_ofSource {self : String} {src : Source} {c : ClientConfig}
    (h : ofSource self src = .ok c) : ReadFrom src c := by
  rw [ofSource_eq] at h
  obtain ⟨⟨host, port⟩, hserver, h⟩ := exists_of_bind_eq_ok h
  obtain ⟨db, hdb, h⟩ := exists_of_bind_eq_ok h
  obtain ⟨pool, hpool, h⟩ := exists_of_bind_eq_ok h
  obtain ⟨restart, hrestart, h⟩ := exists_of_bind_eq_ok h
  cases h
  refine ⟨?_, hdb, hpool, hrestart, rfl⟩
  unfold Source.server at hserver
  split at hserver
  · next raw hraw => exact ⟨raw, hraw, hserver⟩
  · cases hserver

end ClientConfig

end Muster
