import Muster.Remote
import Muster.Proofs.StoreUrls

/-!
# Starting with an accepted configuration

How many connections the settings ask for (`Source.Connections`), and what setting the store of an
accepted configuration up leads to. No limit is checked while the settings are read, so the program
stops where the URL names a store and more connections are asked for than there can be permits.
-/
namespace Muster

namespace Source

variable {src : Source} {n m : Nat}

/-- So many connections are asked for: under the newer name, under the older one, or neither. -/
inductive Connections (src : Source) : Nat → Prop
  | total {n : Nat} (given : src.Gives "max.total" n) (pos : 0 < n) : Connections src n
  | active {n : Nat} (unset : src.IsUnset "max.total") (given : src.Gives "max.active" n)
    (pos : 0 < n) : Connections src n
  | usual (unset : src.IsUnset "max.total") (unset' : src.IsUnset "max.active") : Connections src 8

theorem Connections.unique (h : src.Connections n) (h' : src.Connections m) : n = m := by
  cases h with
  | total h hpos =>
    cases h' with
    | total h' _ => exact h.unique h'
    | active hunset _ _ => exact absurd hunset (h.not_isUnset hpos)
    | usual hunset _ => exact absurd hunset (h.not_isUnset hpos)
  | active hunset h hpos =>
    cases h' with
    | total h' hpos' => exact absurd hunset (h'.not_isUnset hpos')
    | active _ h' _ => exact h.unique h'
    | usual _ hunset' => exact absurd hunset' (h.not_isUnset hpos)
  | usual hunset hunset' =>
    cases h' with
    | total h' hpos' => exact absurd hunset (h'.not_isUnset hpos')
    | active _ h' hpos' => exact absurd hunset' (h'.not_isUnset hpos')
    | usual _ _ => rfl

/-- The pool of an accepted source is to have the connections that are asked for. -/
theorem connections_of_ofSource {p : PoolConfig} (h : PoolConfig.ofSource src = .ok p) :
    src.Connections p.effectiveMaxTotal := by
  obtain ⟨total, active, htotal, hactive, hmax⟩ := PoolConfig.maxTotal_of_ofSource h
  rw [PoolConfig.effectiveMaxTotal, hmax]
  cases total with
  | some n =>
    obtain ⟨hgives, hpos, -⟩ := count?_eq_ok_some htotal
    exact .total hgives hpos
  | none =>
    have hunset := count?_eq_ok_none htotal
    cases active with
    | some n =>
      obtain ⟨hgives, hpos, -⟩ := count?_eq_ok_some hactive
      exact .active hunset hgives hpos
    | none => exact .usual hunset (count?_eq_ok_none hactive)

end Source

namespace ClientConfig

variable {self : String} {src : Source} {c : ClientConfig}

/-- Where the host is a name, the URL of an accepted configuration names the store that it asks for,
with its credentials. -/
theorem ofText?_of_accepted (h : ofSource self src = .ok c)
    (hname : StoreUrl.IsName c.host.toList) :
    StoreUrl.ofText? c.redisUrl = some {
      user := none, password := c.password, host := c.host, port := c.port, db := c.db } := by
  have hread := readFrom_of_ofSource h
  obtain ⟨-, -, -, -, hport⟩ := hread.host_port
  obtain ⟨hlow, hhigh⟩ := Source.database_bounds hread.db
  have hpassword : c.password.filter (· ≠ "") = c.password := by
    rw [hread.password, Source.filled?, Option.filter_filter]
    simp
  rw [ofText?_redisUrl c hname hport hlow hhigh, hpassword]

end ClientConfig

namespace Remote

variable {self : String} {src : Source} {c : ClientConfig}

theorem launch_eq (c : ClientConfig) (server : Server) :
    launch c server =
      match StoreUrl.ofText? c.redisUrl with
      | none => .refused .redis
      | some _ =>
        let n := c.pool.effectiveMaxTotal
        if n ≤ Pool.permitLimit then
          .ready { config := c, pool := { config := c.pool, permits := n }, server }
        else .aborted := by
  unfold launch Pool.ofConfig?
  cases StoreUrl.ofText? c.redisUrl with
  | none => rfl
  | some url => by_cases hlimit : c.pool.effectiveMaxTotal ≤ Pool.permitLimit <;> simp [hlimit]

/-- Setting the store of an accepted configuration up stops the program exactly if its URL names a
store and more connections are asked for than there can be permits. Otherwise the URL is refused, or
the store is ready, with a permit for each connection that is asked for. The URL names a store at
least where the host is a name. -/
theorem launch_of_accepted (h : ClientConfig.ofSource self src = .ok c) (server : Server) :
    ∃ n, src.Connections n ∧ (∀ m, src.Connections m → m = n) ∧
      (launch c server = .aborted ↔
        (StoreUrl.ofText? c.redisUrl).isSome = true ∧ Pool.permitLimit < n) ∧
      ((∃ r, launch c server = .ready r ∧ r.pool.permits = n) ↔
        (StoreUrl.ofText? c.redisUrl).isSome = true ∧ n ≤ Pool.permitLimit) ∧
      (launch c server = .refused .redis ↔ StoreUrl.ofText? c.redisUrl = none) ∧
      (StoreUrl.IsName c.host.toList → (StoreUrl.ofText? c.redisUrl).isSome = true) := by
  have hconnections := Source.connections_of_ofSource (ClientConfig.readFrom_of_ofSource h).pool
  have hnamed (hname : StoreUrl.IsName c.host.toList) :
      (StoreUrl.ofText? c.redisUrl).isSome = true := by
    rw [ClientConfig.ofText?_of_accepted h hname]
    rfl
  refine ⟨c.pool.effectiveMaxTotal, hconnections, fun m hm => hm.unique hconnections, ?_⟩
  rw [launch_eq]
  cases hurl : StoreUrl.ofText? c.redisUrl with
  | none =>
    rw [hurl] at hnamed
    exact ⟨by simp, by simp, by simp, hnamed⟩
  | some url =>
    by_cases hlimit : c.pool.effectiveMaxTotal ≤ Pool.permitLimit
    · simp [hlimit, Nat.not_lt.2 hlimit]
    · simp [hlimit, Nat.not_le.1 hlimit]

/-- The older name counts where the newer one is zero. -/
theorem launch_of_accepted_active :
    let src := Source.ofTable (.ofList [("registry.redis.serverAddr", "h:1"),
      ("registry.redis.max.total", "0"), ("registry.redis.max.active", "5")])
    let c : ClientConfig :=
      { host := "h", port := 1, identity := "1@host", pool := { maxTotal := some 5 } }
    ClientConfig.ofSource "1@host" src = .ok c ∧
      ∃ r, launch c {} = .ready r ∧ r.pool.permits = 5 := by
  intro src c
  have haccepted : ClientConfig.ofSource "1@host" src = .ok c := rfl
  have hfive : src.Connections 5 :=
    .active (.inr ⟨"0", rfl, .plain ⟨0, rfl⟩⟩) ⟨"5", rfl, .plain ⟨0, rfl⟩⟩ (by decide)
  obtain ⟨n, -, hunique, -, hready, -, hnamed⟩ := launch_of_accepted haccepted {}
  obtain rfl := hunique 5 hfive
  exact ⟨haccepted, hready.2 ⟨hnamed (by decide), by decide⟩⟩

/-- An accepted configuration that stops the program. -/
theorem accepted_aborted :
    let src := Source.ofTable (.ofList [("registry.redis.serverAddr", "h:1"),
      ("registry.redis.max.total", "2305843009213693952")])
    let c : ClientConfig := {
      host := "h", port := 1, identity := "1@host"
      pool := { maxTotal := some 2305843009213693952 } }
    ClientConfig.ofSource "1@host" src = .ok c ∧ launch c {} = .aborted := by
  intro src c
  have haccepted : ClientConfig.ofSource "1@host" src = .ok c := rfl
  refine ⟨haccepted, ?_⟩
  rw [launch, ClientConfig.ofText?_of_accepted haccepted (by decide)]
  rfl

end Remote

end Muster
