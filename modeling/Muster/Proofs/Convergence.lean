import Muster.Proofs.Announced

/-!
# Convergence of caches

Where the stream of a task stands, against the messages that its updaters have applied (`Poised`),
and how the cache of a cluster agrees with the hash as long as the newest task of the cluster has
nothing left to synchronise (`Abreast`). Both are kept by every move. So in an orderly run a loaded
cache holds the addresses of the hash whenever its task has nothing left to do.
-/
namespace Muster

namespace Channel

/-- A stream that has nothing to read is at the end of the log. -/
theorem next_pending {c c' : Channel} {s n : Nat} (h : c.next s = (.pending, c'))
    (hn : c.position? s = some n) : c.log.length ≤ n := by
  simp only [next, hn] at h
  split at h
  · cases h
  · split at h
    · next hnone => exact List.getElem?_eq_none_iff.1 hnone
    · cases h
    · cases h

end Channel

namespace Memory

variable {m m' : Memory} {key : String} {s n : Nat}

theorem next_pending (h : (m.next key s).1 = .pending) (hn : m.position? key s = some n) :
    (m.log key).length ≤ n := by
  obtain ⟨c, hc, hn⟩ := Option.bind_eq_some_iff.1 hn
  have hnext : c.next s = (.pending, (c.next s).2) := by
    rw [← h, Memory.next, hc]
  simpa [Memory.log, hc] using Channel.next_pending hnext hn

/-- The stream of a task has passed what its updaters have applied, and the message that they are
going to apply. -/
def Poised (m : Memory) (key : String) (p : Position) : Prop :=
  ∀ s, p.stream? = some s → ∃ n, m.position? key s = some (n + p.lag) ∧
    n + p.lag ≤ (m.log key).length ∧ ∀ msg, p.message? = some msg → p.lag = 1 →
      ((m.log key)[n]?).bind Item.event? = (Event.decode msg).toOption

namespace Poised

variable {p p' : Position}

/-- A task whose stream has stayed where it was. -/
theorem same (h : m.Poised key p) (hlog : m.log key <+: m'.log key)
    (hpos : m'.position? key s = m.position? key s) (hs : p.stream? = some s)
    (hs' : p'.stream? = some s) (hlag : p'.lag = p.lag)
    (hmsg : ∀ msg, p'.message? = some msg → p.message? = some msg) : m'.Poised key p' := by
  intro s' hs''
  cases hs'.symm.trans hs''
  obtain ⟨n, hpn, hle, hitem⟩ := h s hs
  refine ⟨n, by rw [hpos, hlag]; exact hpn, by rw [hlag]; exact Nat.le_trans hle hlog.length_le,
    fun msg hm hl => ?_⟩
  rw [hlag] at hl
  have hlt : n < (m.log key).length := by omega
  have hget : (m'.log key)[n]? = (m.log key)[n]? :=
    (List.prefix_iff_getElem?.1 hlog n hlt).trans (List.getElem?_eq_getElem hlt).symm
  rw [hget]
  exact hitem msg (hmsg msg hm) hl

end Poised

end Memory

namespace World

variable {setup : Setup} {id : Nat} {t t' : Task} {w w' : World}

/-- A stride keeps the stream and the messages together. -/
theorem Stride.poised (h : Stride setup id t w w')
    (hp : w.store.Poised (registryKey t.cluster) t.position)
    (hscreen : ∀ x m, setup.screen x = .ok m → m = x) (ht' : w'.tasks[id]? = some t')
    (hnew : t.position.stream? = none → ∀ s, t'.position.stream? = some s →
      w'.store.position? (registryKey t.cluster) s =
        some (w'.store.log (registryKey t.cluster)).length) :
    w'.store.Poised (registryKey t.cluster) t'.position := by
  -- The stream stays where it is.
  have stays : ∀ {p : Position}, At id w' p → w'.store = w.store →
      p.stream? = t.position.stream? → p.lag = t.position.lag →
      (∀ msg, p.message? = some msg → t.position.message? = some msg) →
      w'.store.Poised (registryKey t.cluster) t'.position := by
    intro p hat hstore hstream hlag hmsg s hs
    rw [hat.position_eq ht'] at hs ⊢
    rw [hstore]
    exact hp.same List.prefix_rfl rfl (hstream ▸ hs) hs hlag hmsg s hs
  cases h with
  | away h =>
    intro s hs
    exact absurd h.2 (not_streamless ht' hs)
  | alike _ hs hat ha => exact stays hat hs ha.stream ha.lag ha.message
  | opened _ hl hat =>
    intro s hs
    have hpos := hnew (by rw [hl]; rfl) s hs
    rw [hat.position_eq ht']
    exact ⟨_, hpos, Nat.le_refl _, fun msg hm => by cases hm⟩
  | woken _ hs hl hat =>
    exact stays hat hs (by rw [hl]; rfl) (by rw [hl]; rfl) fun msg hm => by cases hm
  | @received s payload m _ hl hnext hm hat =>
    obtain ⟨n, hpos, -, -⟩ := hp s (by rw [hl]; rfl)
    rw [hl] at hpos
    have hpos : w.store.position? (registryKey t.cluster) s = some n := hpos
    obtain ⟨hitem, hpos'⟩ := Memory.next_message hnext hpos
    cases hscreen payload m hm
    have hlog := (Memory.next_spares hnext).log (registryKey t.cluster)
    obtain ⟨hlt, -⟩ := List.getElem?_eq_some_iff.1 hitem
    intro s' hs'
    rw [hat.position_eq ht'] at hs' ⊢
    cases hs'
    rw [hlog]
    by_cases hany : (w.listeners.of t.cluster).any Listener.isUpdater = true
    · refine ⟨n, ?_, ?_, fun msg hmsg _ => ?_⟩
      · simpa [Position.lag, Pass.lag, hany] using hpos'
      · simp only [Position.lag, Pass.lag, hany, if_true]
        exact hlt
      · cases hmsg
        rw [hitem]
        rfl
    · refine ⟨n + 1, ?_, ?_, fun msg _ hlag => ?_⟩
      · simpa [Position.lag, Pass.lag, hany] using hpos'
      · simp only [Position.lag, Pass.lag, hany]
        exact hlt
      · simp [Position.lag, Pass.lag, hany] at hlag
  | read _ hs hl hat =>
    exact stays hat hs (by rw [hl]; rfl) (by rw [hl]; rfl) fun msg hm => by rw [hl]; exact hm
  | replaced _ hs hl hat =>
    exact stays hat hs (by rw [hl]; rfl) (by rw [hl]; rfl) fun msg hm => by rw [hl]; exact hm
  | @applied s m l rest e _ hs hl hu he hat =>
    obtain ⟨n, hpos, hle, hitem⟩ := hp s (by rw [hl]; rfl)
    have hlag : t.position.lag = 1 := by rw [hl]; simp [Position.lag, Pass.lag, hu]
    rw [hlag] at hpos hle
    intro s' hs'
    rw [hat.position_eq ht'] at hs' ⊢
    cases hs'
    rw [hs]
    by_cases hany : rest.any Listener.isUpdater = true
    · refine ⟨n, ?_, ?_, fun msg hmsg _ => ?_⟩
      · simpa [Position.lag, Pass.lag, hany] using hpos
      · simpa [Position.lag, Pass.lag, hany] using hle
      · cases hmsg
        exact hitem m (by rw [hl]; rfl) hlag
    · refine ⟨n + 1, ?_, ?_, fun msg _ hlag => ?_⟩
      · simpa [Position.lag, Pass.lag, hany] using hpos
      · simpa [Position.lag, Pass.lag, hany] using hle
      · simp [Position.lag, Pass.lag, hany] at hlag

/-- What the newest task of a cluster with an updater keeps up: an updater is to read the hash, or
the cache agrees with it up to what the task has still to read and to apply. -/
def Abreast (w : World) (air : Event → Prop) (c : String) (p : Position) : Prop :=
  w.Owed c ∨ p.owes = true ∨ ∀ s n, p.stream? = some s →
    w.store.position? (registryKey c) s = some (n + p.lag) →
    w.store.Agrees (registryKey c) air n (p.view (w.caches.entry c).members)

theorem Stride.abreast {air air' : Event → Prop} (h : Stride setup id t w w')
    (ha : w.Abreast air t.cluster t.position)
    (hserved : w.Served t.cluster) (hp : w.store.Poised (registryKey t.cluster) t.position)
    (hair : Memory.Airing (registryKey t.cluster) air air' w.store w'.store)
    (htells : w'.store.Tells (registryKey t.cluster) air')
    (hnodup : (w.caches.entry t.cluster).members.Nodup) (ht' : w'.tasks[id]? = some t') :
    w'.Abreast air' t.cluster t'.position := by
  -- Whatever agreed with the store before still does.
  have moved : ∀ {s n : Nat} {as : List Address}, t.position.stream? = some s →
      w.store.position? (registryKey t.cluster) s = some (n + t.position.lag) →
      w.store.Agrees (registryKey t.cluster) air n as →
      w'.store.Agrees (registryKey t.cluster) air' n as := by
    intro s n as hs hpos hagrees
    obtain ⟨k, hk, hle, -⟩ := hp s hs
    have hn : n ≤ (w.store.log (registryKey t.cluster)).length := by
      rw [hpos] at hk
      have hk := Option.some.inj hk
      omega
    exact hagrees.airing hair hn (Memory.isSome_of_position? hpos)
  cases h with
  | away h =>
    refine .inr (.inr fun s n hs _ => ?_)
    exact absurd h.2 (not_streamless ht' hs)
  | alike h hs hat halike =>
    rw [hat.position_eq ht']
    rcases ha with ho | ho | hagrees
    · exact .inl (h.owed ho)
    · exact .inr (.inl (halike.owes ▸ ho))
    · refine .inr (.inr fun s n hstream hpos => ?_)
      rw [halike.stream] at hstream
      rw [hs, halike.lag] at hpos
      rw [halike.view, h.caches]
      exact moved hstream hpos (hagrees s n hstream hpos)
  | opened _ _ hat =>
    refine .inr (.inl ?_)
    rw [hat.position_eq ht']
    obtain ⟨u, hu, hup⟩ := hserved
    exact List.any_eq_true.2 ⟨u, hu, hup⟩
  | woken h hs hl hat =>
    rw [hat.position_eq ht']
    rw [hl] at ha
    rcases ha with ⟨u, hu, hup⟩ | ho | hagrees
    · exact .inr (.inl (List.any_eq_true.2 ⟨u, hu, hup⟩))
    · cases ho
    · refine .inr (.inr fun s n hstream hpos => ?_)
      rw [hs] at hpos
      rw [h.caches]
      rw [hl] at moved
      exact moved hstream hpos (hagrees s n hstream hpos)
  | @received s payload m h hl hnext _ hat =>
    rw [hat.position_eq ht']
    rw [hl] at ha moved
    rcases ha with ⟨u, hu, hup⟩ | ho | hagrees
    · exact .inr (.inl (List.any_eq_true.2 ⟨u, hu, hup⟩))
    · cases ho
    · -- The message is one more to apply.
      refine .inr (.inr fun s' n hstream hpos => ?_)
      cases hstream
      obtain ⟨k, hk, -, -⟩ := hp s (by rw [hl]; rfl)
      rw [hl] at hk
      have hk : w.store.position? (registryKey t.cluster) s = some k := hk
      have hlag : Position.lag (.passing s (.beforeDelivery m (w.listeners.of t.cluster))
          (w.listeners.pending t.cluster)) = 1 := by
        obtain ⟨u, hu, hup⟩ := hserved
        exact if_pos (List.any_eq_true.2 ⟨u, hu, hup⟩)
      rw [hlag, (Memory.next_message hnext hk).2] at hpos
      have hnk : k = n := by simpa using hpos
      subst hnk
      rw [h.caches]
      exact moved rfl hk (hagrees s k rfl hk)
  | read h hs hl hat =>
    rw [hat.position_eq ht']
    rcases ha with ho | - | -
    · exact .inl (h.owed ho)
    all_goals
      refine .inr (.inr fun s n _ _ => ?_)
      rw [hs]
      exact (Memory.Agrees.read _ _ _ _).congr fun a => List.mem_eraseDups
  | @replaced s pass l g fields rest h hs hl hat =>
    rw [hat.position_eq ht']
    rw [hl] at ha moved
    rcases ha with ho | ho | hagrees
    · exact .inl (h.owed ho)
    · exact .inr (.inl ho)
    · refine .inr (.inr fun s n hstream hpos => ?_)
      rw [hs] at hpos
      have hagrees := moved hstream hpos (hagrees s n hstream hpos)
      rw [h.caches, updateCache, Caches.entry_update, if_pos rfl]
      exact hagrees
  | @applied s m l rest e h hs hl hu he hat =>
    have hlag : t.position.lag = 1 := by rw [hl]; simp [Position.lag, Pass.lag, hu]
    obtain ⟨k, hk, -, hitem⟩ := hp s (by rw [hl]; rfl)
    have hitem := hitem m (by rw [hl]; rfl) hlag
    rw [hat.position_eq ht']
    rcases ha with ho | ho | hagrees
    · exact .inl (h.owed ho)
    · rw [hl] at ho
      cases ho
    · refine .inr (.inr fun s' n hstream hpos => ?_)
      cases hstream
      have hstream : t.position.stream? = some s := by rw [hl]; rfl
      have hview : t.position.view (w.caches.entry t.cluster).members =
          (w.caches.entry t.cluster).members := by rw [hl]; rfl
      have hagrees := moved hstream hk (hagrees s k hstream hk)
      rw [hview] at hagrees
      have hentry : (w'.caches.entry t.cluster).members =
          ((w.caches.entry t.cluster).apply e).members := by
        rw [h.caches]
        show ((w.caches.update t.cluster fun c => c.apply e).entry t.cluster).members = _
        rw [Caches.entry_update, if_pos rfl]
      have happlied := hagrees.apply htells hnodup (by rw [hs, hitem, he]; rfl)
      rw [← hentry] at happlied
      rw [hs, hk, hlag] at hpos
      -- Another updater may be there that applies the message once more.
      refine happlied.of_le ?_
      have hpos := Option.some.inj hpos
      omega

theorem Shift.log (h : Shift setup w w') (key : String) : w.store.log key <+: w'.store.log key := by
  cases h with
  | others _ hm => exact hm.log key
  | own _ _ _ _ flow => exact flow.others.1 key

/-- A task stays with its cluster. -/
theorem Shift.cluster (h : Shift setup w w') (ht : w.tasks[id]? = some t)
    (ht' : w'.tasks[id]? = some t') : t'.cluster = t.cluster := by
  have elsewhere : Elsewhere id w w' → t'.cluster = t.cluster := fun e => by
    obtain ⟨u, hu, hc, -⟩ := e.task t ht
    cases ht'.symm.trans hu
    exact hc
  cases h with
  | others e => exact elsewhere (e id)
  | @own j u u' hu hu' hc e =>
    by_cases hj : j = id
    · subst hj
      cases ht.symm.trans hu
      cases ht'.symm.trans hu'
      exact hc
    · exact elsewhere (e id hj)

/-- A stream that was just opened stands at the end of the log. -/
theorem Shift.opened {s : Nat} (h : Shift setup w w')
    (hfresh : ∀ key s, w.store.opened ≤ s → w.store.position? key s = none)
    (ht : w.tasks[id]? = some t) (ht' : w'.tasks[id]? = some t')
    (hs : t.position.stream? = none) (hs' : t'.position.stream? = some s) :
    w'.store.position? (registryKey t.cluster) s =
      some (w'.store.log (registryKey t.cluster)).length := by
  have elsewhere : ¬ Elsewhere id w w' := fun e => by
    obtain ⟨u, hu, -, hp, -⟩ := e.task t ht
    cases ht'.symm.trans hu
    rw [hp, hs] at hs'
    cases hs'
  cases h with
  | others e => exact absurd (e id) elsewhere
  | @own j u u' hu hu' _ e flow =>
    by_cases hj : j = id
    · subst hj
      cases ht.symm.trans hu
      cases ht'.symm.trans hu'
      cases flow with
      | calm _ _ hp => simp [hp, hs] at hs'
      | refused _ hp => simp [hp] at hs'
      | opened _ _ hp hm =>
        rw [hp] at hs'
        cases hs'
        obtain ⟨rfl, -, hspares, hnew⟩ := Memory.subscribe_spares hm
        rw [hnew (hfresh _ _ (Nat.le_refl _)), hspares.log]
      | closed _ _ hp => simp [hp] at hs
      | took _ _ hp => simp [hp] at hs
      | lost _ _ hp => simp [hp] at hs
    · exact absurd (e id hj) elsewhere

end World

namespace Fleet

variable {setups : Nat → Setup} {f g : Fleet} {i j id : Nat} {m : Move} {w w' : World} {t t' : Task}
  {s n : Nat}

namespace Streamed

/-- The stream of a task that somebody else leaves alone stays where it was. -/
theorem position?_kept (h : Streamed setups f) (h' : Streamed setups g) (hw : f.world? i = some w)
    (hw' : g.world? i = some w') (hstill : w.store.Calm w'.store ∨ World.Elsewhere id w w')
    (ht : w.tasks[id]? = some t) (ht' : w'.tasks[id]? = some t')
    (hs : t.position.stream? = some s) (hs' : t'.position.stream? = some s) :
    g.store.position? (registryKey t.cluster) s = f.store.position? (registryKey t.cluster) s := by
  rcases hstill with hcalm | e
  · rw [store_of_world? hw, store_of_world? hw'] at hcalm
    exact hcalm.position _ _
  · rcases (h.recorded hw).kept e ht' with ⟨u, hu, hc, -, ha⟩ | ⟨hp, -⟩
    · cases ht.symm.trans hu
      have hold := ((h.tapped hw ht).stands s hs).2
      have hnew := ((h'.tapped hw' ht').stands s hs').2
      rw [attemptOf, hc, ha] at hnew
      rw [hold]
      exact hnew
    · rw [hp] at hs'
      cases hs'

end Streamed

/-- The streams of all tasks are in step with the messages that their updaters apply. -/
theorem poised_of_reachable (hscreen : ∀ i x m, (setups i).screen x = .ok m → m = x)
    (hf : Reachable setups f) (hw : f.world? i = some w) (ht : w.tasks[id]? = some t) :
    f.store.Poised (registryKey t.cluster) t.position := by
  obtain ⟨store, clients, hs, hr⟩ := hf
  induction hr generalizing i w id t with
  | refl =>
    rw [world?_start hw] at ht
    simp at ht
  | @move f g k m past next ih =>
    intro s hstream
    have hf : Reachable setups f := ⟨store, clients, hs, past⟩
    have h := Streamed.of_reachable hf
    have h' := h.move next
    obtain ⟨v, v', hv, hm, hg, hi, hothers⟩ := move_cases next
    have hshift := ((h.recorded hv).move (h.supervised hv) hm).2
    have hlog : ∀ key, f.store.log key <+: g.store.log key := by
      intro key
      rw [← store_of_world? hv, hg]
      exact hshift.log key
    -- A task that goes on as before, of whichever client.
    have alike : ∀ {u : World} {r : Task}, f.world? i = some u → u.tasks[id]? = some r →
        t.cluster = r.cluster → r.position.Alike t.position →
        (u.store.Calm w.store ∨ World.Elsewhere id u w) →
        g.store.Poised (registryKey t.cluster) t.position := by
      intro u r hu hr hc ha hstill
      have hstream' : r.position.stream? = some s := ha.stream ▸ hstream
      rw [hc]
      exact (ih hu hr).same (hlog _) (h.position?_kept h' hu hw hstill hr ht hstream' hstream)
        hstream' hstream ha.lag ha.message
    by_cases hk : k = i
    · subst hk
      cases hi.symm.trans hw
      obtain ⟨-, hproper⟩ := kept_of_reachable hf hv
      have hhappens := World.move_happens (h.supervised hv) hproper hm
      rcases hhappens.stands ht hstream with ⟨r, hr, ha, hstill⟩ | ⟨r, hr, hstride⟩
      · exact alike hv hr (hshift.cluster hr ht) ha hstill s hstream
      · have hc := hshift.cluster hr ht
        have hp := ih hv hr
        have hfresh := h.fresh
        rw [← store_of_world? hv] at hp hfresh
        rw [hc, hg]
        exact hstride.poised hp (hscreen _) ht (fun hs s hs' => hshift.opened hfresh hr ht hs hs') s
          hstream
    · rw [hothers i hk] at hw
      obtain ⟨u, hu, rfl⟩ := Option.map_eq_some_iff.1 hw
      exact alike hu ht rfl (.refl _) (.inr (.quiet rfl rfl)) s hstream

/-- In an orderly run, the newest task of a cluster with an updater keeps abreast of the store, as
long as there is hope that the cluster is loaded. -/
theorem abreast_of_orderly {store : Memory} {clients : Nat}
    (hscreen : ∀ i x m, (setups i).screen x = .ok m → m = x) (hs : store.channels.entries = [])
    (hcanonical : store.Canonical) (h : Orderly setups (start store clients) f) {c : String}
    (hw : f.world? i = some w) (hl : w.Leads c id) (hserved : w.Served c)
    (ht : w.tasks[id]? = some t) :
    w.Hopeless c ∨ w.Abreast (InAir setups f (registryKey c)) c t.position := by
  induction h generalizing i w id t with
  | refl =>
    rw [world?_start hw] at ht
    simp at ht
  | @move f g k m past next allowed ih =>
    have hf : Reachable setups f := ⟨store, clients, hs, past.reaches⟩
    have htold := Told.of_orderly hs hcanonical past
    have hair := htold.airing hf next allowed.1 allowed.2 (registryKey c)
    have htells := (htold.tells (registryKey c)).airing hair
    have hstreamed := Streamed.of_reachable hf
    have hstreamed' := hstreamed.move next
    obtain ⟨v, v', hv, hm, hg, hi, hothers⟩ := move_cases next
    -- A task that goes on as before finds as much as before.
    have alike : ∀ {u : World} {r : Task}, f.world? i = some u → u.tasks[id]? = some r →
        t.cluster = r.cluster → r.cluster = c → r.position.Alike t.position →
        (u.store.Calm w.store ∨ World.Elsewhere id u w) →
        (w.caches.entry c).members = (u.caches.entry c).members → (u.Owed c → w.Owed c) →
        u.Abreast (InAir setups f (registryKey c)) c r.position →
        w.Abreast (InAir setups g (registryKey c)) c t.position := by
      intro u r hu hr hc hrc ha hstill hmembers howed h
      rcases h with ho | ho | hagrees
      · exact .inl (howed ho)
      · exact .inr (.inl (ha.owes ▸ ho))
      · refine .inr (.inr fun s n hstream hpos => ?_)
        have hstream' : r.position.stream? = some s := ha.stream ▸ hstream
        obtain ⟨n', hn', hle, -⟩ := poised_of_reachable hscreen hf hu hr s hstream'
        have hkept := hstreamed.position?_kept hstreamed' hu hw hstill hr ht hstream' hstream
        rw [hrc] at hkept hn' hle
        rw [store_of_world? hw, hkept, ha.lag] at hpos
        have hnn : n' = n := by
          rw [hpos] at hn'
          have hn' := Option.some.inj hn'
          omega
        subst hnn
        have hagrees := hagrees s n' hstream' (by rw [store_of_world? hu]; exact hpos)
        rw [store_of_world? hu] at hagrees
        rw [store_of_world? hw, ha.view, hmembers]
        exact hagrees.airing hair (by omega) (Memory.isSome_of_position? hpos)
    by_cases hk : k = i
    · subst hk
      cases hi.symm.trans hw
      have hsup := hstreamed.supervised hv
      obtain ⟨hkept, hproper⟩ := kept_of_reachable hf hv
      have hhappens := World.move_happens hsup hproper hm
      have hshift := ((hstreamed.recorded hv).move hsup hm).2
      cases hstream : t.position.stream? with
      | none => exact .inr (.inr (.inr fun s n hs _ => by simp [hstream] at hs))
      | some s =>
        rcases hhappens.turn hsup hkept hm hl hserved ht hstream with
          ho | hhope | hsteady | ⟨r, -, hr, hrc, hstride⟩
        · exact .inr (.inl ho)
        · exact .inl hhope
        · obtain ⟨r, hr, ha⟩ := hsteady.task
          have hrc : r.cluster = c := by
            obtain ⟨u, -, hu, hc, -⟩ := hsteady.leads
            cases hr.symm.trans hu
            exact hc
          rcases ih hv hsteady.leads hsteady.served hr with hhope | hbreast
          · exact .inl (hhope.happens hsup hm hhappens)
          · exact .inr (alike hv hr (hshift.cluster hr ht) hrc ha hsteady.store hsteady.members
              hsteady.owed hbreast)
        · subst hrc
          have hserved' := (hstride.served r.cluster).1 hserved
          rcases ih hv (hstride.leads hl) hserved' hr with hhope | hbreast
          · exact .inl (hhope.happens hsup hm hhappens)
          · have hp := poised_of_reachable hscreen hf hv hr
            rw [← store_of_world? hv] at hp
            rw [← store_of_world? hv, hg] at hair
            rw [hg] at htells
            exact .inr (hstride.abreast hbreast hserved' hp hair htells (hkept.nodup _) ht)
    · have hw' := hw
      rw [hothers i hk] at hw'
      obtain ⟨u, hu, rfl⟩ := Option.map_eq_some_iff.1 hw'
      have hrc : t.cluster = c := by
        obtain ⟨r, -, hr, hc, -⟩ := hl
        cases ht.symm.trans hr
        exact hc
      rcases ih hu hl hserved ht with hhope | hbreast
      · have hstart : ∀ who, ({ u with store := v'.store } : World).intent? who ≠
            some (.start c) := fun who => World.intent?_congr (w := u) rfl rfl who ▸ hhope.start who
        exact .inl ⟨hhope.closed, hhope.cell, hstart⟩
      · exact .inr (alike hu ht rfl hrc (.refl _) (.inr (.quiet rfl rfl)) rfl (fun ho => ho) hbreast)

end Fleet

/-- The newest task of a cluster is active and waits for messages; its stream has nothing to read,
and no listener is queued. -/
def World.CaughtUp (w : World) (c : String) : Prop :=
  ∃ id t s, w.Leads c id ∧ w.tasks[id]? = some t ∧ t.position = .listening s ∧
    w.status? c = some .active ∧ (w.store.next (registryKey c) s).1 = .pending ∧
    w.listeners.pending c = []

/-- Whether the first task of a client has caught up. -/
def World.isCaughtUp (w : World) (c : String) : Bool :=
  (w.tasks[0]?).any fun t =>
    match t.position with
    | .listening s => t.cluster == c &&
      ((w.slots.get? c).any fun slot => slot.generation == t.generation && slot.status == .active) &&
      (w.store.next (registryKey c) s).1 == .pending && w.listeners.pending c == []
    | _ => false

theorem World.caughtUp_of_isCaughtUp {w : World} {c : String} (h : w.isCaughtUp c = true) :
    w.CaughtUp c := by
  obtain ⟨t, ht, h⟩ := (Option.any_eq_true _ _).1 h
  split at h
  · next s hp =>
    simp only [Bool.and_eq_true, beq_iff_eq, Option.any_eq_true] at h
    obtain ⟨⟨⟨hc, slot, hslot, hg, hactive⟩, hnext⟩, hpending⟩ := h
    have hstatus : w.status? c = some .active := by rw [World.status?, hslot, ← hactive]; rfl
    exact ⟨0, t, s, ⟨t, slot, ht, hc, hslot, hg⟩, ht, hp, hstatus, hnext, hpending⟩
  · cases h

namespace Fleet

variable {setups : Nat → Setup} {f : Fleet} {i : Nat} {w : World} {store : Memory} {clients : Nat}
  {c : String} {a : Address}

/-- A loaded cache whose task has caught up has an address exactly if the hash lists it, unless a
change of this address is in the air. -/
theorem mem_members_iff (hscreen : ∀ i x m, (setups i).screen x = .ok m → m = x)
    (hs : store.channels.entries = []) (hcanonical : store.Canonical)
    (h : Orderly setups (start store clients) f) (hw : f.world? i = some w)
    (hloaded : w.cell c = .loaded) (hup : w.CaughtUp c)
    (ha : Memory.Settled (InAir setups f (registryKey c)) a) :
    a ∈ (w.caches.entry c).members ↔ f.store.Lists (registryKey c) a := by
  obtain ⟨id, t, s, hl, ht, hp, -, hpending, hqueue⟩ := hup
  have hf : Reachable setups f := ⟨store, clients, hs, h.reaches⟩
  have hserved := (kept_of_reachable hf hw).1.loaded c hloaded
  have hc : t.cluster = c := by
    obtain ⟨u, -, hu, hc, -⟩ := hl
    cases ht.symm.trans hu
    exact hc
  have hstore := store_of_world? hw
  obtain ⟨n, hpos, -, -⟩ := poised_of_reachable hscreen hf hw ht s (by rw [hp]; rfl)
  rw [hc, hp] at hpos
  have hpos : f.store.position? (registryKey c) s = some n := hpos
  rw [hstore] at hpending
  have hend := Memory.next_pending hpending hpos
  rcases abreast_of_orderly hscreen hs hcanonical h hw hl hserved ht with
    hhope | ⟨u, hu, -⟩ | ho | hagrees
  · exact absurd hloaded hhope.cell
  · rw [hqueue] at hu
    cases hu
  · rw [hp] at ho
    cases ho
  · rw [hp, hstore] at hagrees
    have hagrees : f.store.Agrees (registryKey c) (InAir setups f (registryKey c)) n
      (w.caches.entry c).members := hagrees s n rfl hpos
    refine hagrees a ha fun e he => ?_
    rw [Memory.eventsFrom, List.drop_eq_nil_of_le hend] at he
    cases he

/-- Caches converge to the store. In an orderly run of any clients on one store, a cluster that is
loaded, and whose newest task has caught up, is cached with exactly the addresses that its hash
yields, as soon as no change of the hash is still to be announced. -/
theorem cache_converges (hscreen : ∀ i x m, (setups i).screen x = .ok m → m = x)
    (hs : store.channels.entries = []) (hcanonical : store.Canonical)
    (h : Orderly setups (start store clients) f) (hw : f.world? i = some w)
    (hloaded : w.cell c = .loaded) (hup : w.CaughtUp c)
    (hair : ∀ e, ¬ InAir setups f (registryKey c) e) (a : Address) :
    a ∈ (w.caches.entry c).members ↔ a ∈ addressesOf (f.store.hash (registryKey c)).entries :=
  mem_members_iff hscreen hs hcanonical h hw hloaded hup fun e he => absurd he (hair e)

/-- One client has loaded the cluster when another one registers an address. -/
theorem cache_converges_register : ∃ f w,
    Orderly (fun _ => .mapped "me@here" "c") (start .usual 2) f ∧ f.world? 0 = some w ∧
    w.cell "c" = .loaded ∧ w.CaughtUp "c" ∧
    (w.caches.entry "c").members.map Address.text = ["10.0.0.1:8091"] ∧
    ∀ a, a ∈ (w.caches.entry "c").members ↔
      a ∈ addressesOf (f.store.hash (registryKey "c")).entries := by
  obtain ⟨f, hf, hp⟩ := (Option.any_eq_true _ _).1 (show
    ((start .usual 2).runOrderly (fun _ => .mapped "me@here" "c")
      ([(0, .ask 0 (.lookup "k"))] ++ List.replicate 2 (0, .step (.call 0)) ++
        List.replicate 5 (0, .step (.task 0)) ++ [(0, .step (.call 0)),
        (1, .ask 0 (.register "10.0.0.1:8091"))] ++ List.replicate 2 (1, .step (.call 0)) ++
        List.replicate 4 (0, .step (.task 0)))).any (fun f => f.announcements.isEmpty &&
      (f.world? 0).any fun w => w.cell "c" == .loaded && w.isCaughtUp "c" &&
        (w.caches.entry "c").members.map Address.text == ["10.0.0.1:8091"]) = true
    by decide +kernel)
  simp only [Bool.and_eq_true, List.isEmpty_iff, Option.any_eq_true, beq_iff_eq] at hp
  obtain ⟨hair, w, hw, ⟨hloaded, hup⟩, hmembers⟩ := hp
  have h := orderly_of_run hf
  have hcaught := World.caughtUp_of_isCaughtUp hup
  exact ⟨f, w, h, hw, hloaded, hcaught, hmembers,
    cache_converges (fun _ _ _ hm => (Except.ok.inj hm).symm) rfl
      (fun _ _ _ hfield => by cases hfield) h hw hloaded hcaught (not_inAir hair _)⟩

end Fleet

end Muster
