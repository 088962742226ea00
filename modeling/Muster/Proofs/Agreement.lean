import Muster.Proofs.Convergence

/-!
# Readers that agree

Two clients that loaded a cluster at different times, one fed by messages and one by the hash, hold
the same addresses once their tasks have caught up, if the writers were orderly. They need not
agree otherwise: the messages of two overlapping calls may come in another order than their changes
of the hash, and a field in another spelling outlives the message that its address has left.
-/
namespace Muster

namespace Fleet

section
variable {setups : Nat → Setup} {f : Fleet} {i j : Nat} {v w : World} {store : Memory}
  {clients : Nat} {c : String}

/-- Readers of one cluster agree after orderly calls. -/
theorem readers_agree (hscreen : ∀ i x m, (setups i).screen x = .ok m → m = x)
    (hs : store.channels.entries = []) (hcanonical : store.Canonical)
    (h : Orderly setups (start store clients) f) (hair : ∀ e, ¬ InAir setups f (registryKey c) e)
    (hv : f.world? i = some v) (hw : f.world? j = some w)
    (hvc : v.cell c = .loaded) (hwc : w.cell c = .loaded) (hvu : v.CaughtUp c) (hwu : w.CaughtUp c)
    (a : Address) : a ∈ (v.caches.entry c).members ↔ a ∈ (w.caches.entry c).members := by
  have hsettled : Memory.Settled (InAir setups f (registryKey c)) a := fun e he =>
    absurd he (hair e)
  rw [mem_members_iff hscreen hs hcanonical h hv hvc hvu hsettled,
    mem_members_iff hscreen hs hcanonical h hw hwc hwu hsettled]

end

/-! ## Given runs -/

/-- A client looks a key up, and goes on until its task waits for messages. -/
def loading (i : Nat) : List (Nat × Move) :=
  [(i, .ask 0 (.lookup "k"))] ++ List.replicate 2 (i, .step (.call 0)) ++
    List.replicate 5 (i, .step (.task 0)) ++ [(i, .step (.call 0))]

/-- The task of a client takes a message and hands it to the updater. -/
def taking (i : Nat) : List (Nat × Move) := List.replicate 4 (i, .step (.task 0))

/-- No call is in progress, two clients have loaded a cluster and caught up, and only the first of
them has the address. -/
def Disagree (f : Fleet) (i j : Nat) (c text : String) : Prop :=
  (∀ w ∈ f.worlds, w.calls.entries = []) ∧ ∃ v w, f.world? i = some v ∧ f.world? j = some w ∧
    v.cell c = .loaded ∧ w.cell c = .loaded ∧ v.CaughtUp c ∧ w.CaughtUp c ∧
    ∃ a, Address.ofText? text = some a ∧ a ∈ (v.caches.entry c).members ∧
      a ∉ (w.caches.entry c).members

def disagreeing (f : Fleet) (i j : Nat) (c text : String) : Bool :=
  f.worlds.all (fun w => w.calls.entries.isEmpty) &&
  (f.world? i).any fun v => (f.world? j).any fun w => v.cell c == .loaded && w.cell c == .loaded &&
    v.isCaughtUp c && w.isCaughtUp c && (Address.ofText? text).any fun a =>
      decide (a ∈ (v.caches.entry c).members) && decide (a ∉ (w.caches.entry c).members)

theorem disagree_of_disagreeing {f : Fleet} {i j : Nat} {c text : String}
    (h : f.disagreeing i j c text = true) : f.Disagree i j c text := by
  simp only [disagreeing, Bool.and_eq_true, List.all_eq_true, List.isEmpty_iff, Option.any_eq_true,
    beq_iff_eq, decide_eq_true_eq] at h
  obtain ⟨hcalls, v, hv, w, hw, ⟨⟨⟨hvc, hwc⟩, hvu⟩, hwu⟩, a, ha, hin, hout⟩ := h
  exact ⟨hcalls, v, w, hv, hw, hvc, hwc, World.caughtUp_of_isCaughtUp hvu,
    World.caughtUp_of_isCaughtUp hwu, a, ha, hin, hout⟩

/-- One client has loaded the cluster before another one registers an address, one after that. -/
theorem readers_agree_register : ∃ f v w,
    Orderly (fun _ => .mapped "me@here" "c") (start .usual 3) f ∧
    f.world? 0 = some v ∧ f.world? 2 = some w ∧
    (v.caches.entry "c").members.map Address.text = ["10.0.0.1:8091"] ∧
    ∀ a, a ∈ (v.caches.entry "c").members ↔ a ∈ (w.caches.entry "c").members := by
  obtain ⟨f, hf, hp⟩ := (Option.any_eq_true _ _).1 (show
    ((start .usual 3).runOrderly (fun _ => .mapped "me@here" "c") (loading 0 ++
      [(1, .ask 0 (.register "10.0.0.1:8091")), (1, .step (.call 0)), (1, .step (.call 0))] ++
      loading 2 ++ taking 0)).any (fun f => f.announcements.isEmpty &&
      (f.world? 0).any fun v => (f.world? 2).any fun w => v.cell "c" == .loaded &&
        w.cell "c" == .loaded && v.isCaughtUp "c" && w.isCaughtUp "c" &&
        (v.caches.entry "c").members.map Address.text == ["10.0.0.1:8091"]) = true
    by decide +kernel)
  simp only [Bool.and_eq_true, List.isEmpty_iff, Option.any_eq_true, beq_iff_eq] at hp
  obtain ⟨hair, v, hv, w, hw, ⟨⟨⟨hvc, hwc⟩, hvu⟩, hwu⟩, hmembers⟩ := hp
  have h := orderly_of_run hf
  exact ⟨f, v, w, h, hv, hw, hmembers, readers_agree (fun _ _ _ hm => (Except.ok.inj hm).symm) rfl
    (fun _ _ _ hfield => by cases hfield) h (not_inAir hair _) hv hw hvc hwc
    (World.caughtUp_of_isCaughtUp hvu) (World.caughtUp_of_isCaughtUp hwu)⟩

/-- Readers disagree after a register and an unregister call for one address that overlap, and after
an unregister call for an address whose field is in another spelling. -/
theorem readers_disagree :
    (∃ f, (start .usual 4).run (fun _ => .mapped "me@here" "c") (loading 0 ++
      [(1, .ask 0 (.register "10.0.0.1:8091")), (1, .step (.call 0)),
        (2, .ask 0 (.unregister "10.0.0.1:8091")), (2, .step (.call 0)), (2, .step (.call 0)),
        (1, .step (.call 0))] ++ taking 0 ++ taking 0 ++ loading 3) = some f ∧
      f.Disagree 0 3 "c" "10.0.0.1:8091") ∧
    ∃ f, (start (Memory.usual.put "registry.redis.c" "[2001:db8:0:0:0:0:0:1]:8091" "me@here") 3).run
      (fun _ => .mapped "me@here" "c") (loading 2 ++
      [(1, .ask 0 (.unregister "[2001:db8::1]:8091")), (1, .step (.call 0)),
        (1, .step (.call 0))] ++ taking 2 ++ loading 0) = some f ∧
      f.Disagree 0 2 "c" "[2001:db8::1]:8091" := by
  constructor
  · obtain ⟨f, hf, hp⟩ := (Option.any_eq_true _ _).1 (show
      ((start .usual 4).run (fun _ => .mapped "me@here" "c") (loading 0 ++
        [(1, .ask 0 (.register "10.0.0.1:8091")), (1, .step (.call 0)),
          (2, .ask 0 (.unregister "10.0.0.1:8091")), (2, .step (.call 0)), (2, .step (.call 0)),
          (1, .step (.call 0))] ++ taking 0 ++ taking 0 ++ loading 3)).any
        (fun f => f.disagreeing 0 3 "c" "10.0.0.1:8091") = true by decide +kernel)
    exact ⟨f, hf, disagree_of_disagreeing hp⟩
  · obtain ⟨f, hf, hp⟩ := (Option.any_eq_true _ _).1 (show
      ((start (Memory.usual.put "registry.redis.c" "[2001:db8:0:0:0:0:0:1]:8091" "me@here") 3).run
        (fun _ => .mapped "me@here" "c") (loading 2 ++
        [(1, .ask 0 (.unregister "[2001:db8::1]:8091")), (1, .step (.call 0)),
          (1, .step (.call 0))] ++ taking 2 ++ loading 0)).any
        (fun f => f.disagreeing 0 2 "c" "[2001:db8::1]:8091") = true by decide +kernel)
    exact ⟨f, hf, disagree_of_disagreeing hp⟩

end Fleet

end Muster
