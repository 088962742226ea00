import Muster.Proofs.Answers
import Muster.Proofs.Convergence
import Muster.Proofs.Messages
import Muster.Proofs.Statuses

/-!
# What a fresh view accounts for

From the reading of the hash on with which the cache of a cluster was filled last, the cache holds
what that reading and the messages applied since make, and every message that was passed on is
among them, or is being delivered (`Accounted`). This holds of the newest task of a cluster with an
updater unless the updater is still to read the hash.
-/
namespace Muster

/-- What messages make of the addresses of a reading. -/
def replay (messages : List String) (as : List Address) : List Address :=
  messages.foldl (fun as m =>
    match Event.decode m with
    | .ok e => (Membership.apply ({ members := as } : Membership Actor) e).members
    | .error _ => as) as

theorem replay_append (ms ms' : List String) (as : List Address) :
    replay (ms ++ ms') as = replay ms' (replay ms as) := List.foldl_append

/-- The hash of a cluster is read. -/
def Mark.isReading : Mark → Bool
  | .stored _ (.readFields _) _ => true
  | _ => false

namespace World

/-- The view that a call of a user answers with in a move. -/
def shown? (setup : Setup) (w : World) (m : Move) : Option View :=
  let progress : Option Progress := match m with
    | .ask id a => some ((w.note (.asked id a)).begin setup (.call id) a).2
    | .step (.call id) =>
      (w.calls.get? id).bind fun stage => (w.resume setup (.call id) stage).map Prod.snd
    | _ => none
  match progress with
  | some (.finished (.view x)) => some x
  | _ => none

theorem answers_of_shown? {setup : Setup} {w : World} {m : Move} {x : View}
    (h : w.shown? setup m = some x) : ∃ v, w.Answers setup m (.view x) v := by
  unfold shown? at h
  dsimp only at h
  split at h
  · next hp =>
    cases h
    split at hp
    · exact ⟨_, .asked (Prod.ext rfl (Option.some.inj hp))⟩
    · obtain ⟨stage, hs, hr⟩ := Option.bind_eq_some_iff.1 hp
      obtain ⟨⟨v, p⟩, hr, hp⟩ := Option.map_eq_some_iff.1 hr
      cases hp
      exact ⟨v, .called hs hr⟩
    · cases hp
  · cases h

/-- Whether a message was passed on after the only reading of a hash, and never applied. -/
def overlooks (w : World) (c message : String) : Bool :=
  match w.trace.dropWhile fun m => !m.isReading with
  | [] => false
  | m :: past => m.isReading && past.all (fun m => !m.isReading) &&
    w.dispatched c (w.trace.takeWhile fun m => !m.isReading) == [message] &&
    w.applied c w.trace == []

theorem of_overlooks {w : World} {c message : String} (h : w.overlooks c message = true) :
    ∃ since m past, w.trace = since ++ m :: past ∧ m.isReading = true ∧
      (∀ m' ∈ since ++ past, m'.isReading = false) ∧ w.dispatched c since = [message] ∧
      w.applied c w.trace = [] := by
  unfold overlooks at h
  split at h
  · cases h
  · next m past heq =>
    simp only [Bool.and_eq_true, beq_iff_eq, List.all_eq_true, Bool.not_eq_true'] at h
    obtain ⟨⟨⟨hm, hpast⟩, hd⟩, ha⟩ := h
    refine ⟨w.trace.takeWhile fun m => !m.isReading, m, past, ?_, hm, fun m' hmem => ?_, hd, ha⟩
    · rw [← heq, List.takeWhile_append_dropWhile]
    · rcases List.mem_append.1 hmem with hmem | hmem
      · simpa using List.all_eq_true.1 List.all_takeWhile m' hmem
      · exact hpast m' hmem

end World

namespace Fleet

variable {setups : Nat → Setup} {f g : Fleet} {i id : Nat} {m : Move} {w w' : World} {c : String}
  {t : Task} {p p' : Position} {told : List Mark}

/-- The cache is what a reading of the hash and the messages applied since then make, and every
message that was passed on since then is applied or being delivered. -/
def Accounted (setups : Nat → Setup) (f : Fleet) (i : Nat) (c : String) (w : World)
    (p : Position) : Prop :=
  ∃ g u since, Reaches setups g f ∧ g.world? i = some u ∧ w.trace = since ++ u.trace ∧
    p.view (w.caches.entry c).members = replay (w.applied c since)
      (addressesOf (g.store.hash (registryKey c)).entries).eraseDups ∧
    (w.dispatched c since).Sublist (w.applied c since ++ p.pending)

theorem Accounted.grow (h : Accounted setups f i c w p) (next : f.move setups i m = some g)
    (hrec : w.Recorded (setups i)) (hs : World.Shift (setups i) w w')
    (htold : w'.trace.filter Mark.tells = told ++ w.trace.filter Mark.tells)
    (hview : p'.view (w'.caches.entry c).members =
      replay (w'.applied c told) (p.view (w.caches.entry c).members))
    (hpending : (p.pending ++ w'.dispatched c told).Sublist (w'.applied c told ++ p'.pending)) :
    Accounted setups g i c w' p' := by
  obtain ⟨g₀, u, since, hreach, hu, htrace, hfold, hsub⟩ := h
  obtain ⟨since', htrace', hdispatched, happlied⟩ := hrec.tells hs htold c htrace
  refine ⟨g₀, u, since', hreach.move next, hu, htrace', ?_, ?_⟩
  · rw [hview, hfold, happlied, replay_append]
  · rw [hdispatched, happlied]
    have hall := hsub.append_right (w'.dispatched c told)
    rw [List.append_assoc] at hall
    rw [List.append_assoc]
    exact hall.trans (hpending.append_left _)

/-- Nothing that matters happened. -/
theorem Accounted.alike (h : Accounted setups f i c w p) (next : f.move setups i m = some g)
    (hrec : w.Recorded (setups i)) (hs : World.Shift (setups i) w w')
    (hhushed : World.Hushed c w w')
    (hview : p'.view (w'.caches.entry c).members = p.view (w.caches.entry c).members)
    (hpending : p'.pending = p.pending) : Accounted setups g i c w' p' := by
  obtain ⟨told, htold, hothers⟩ := hhushed
  obtain ⟨hd, ha⟩ := hs.hushed hothers
  refine h.grow next hrec hs htold (by rw [ha, hview]; rfl) ?_
  rw [hd, ha, hpending]
  simp

theorem Accounted.stride (next : f.move setups i m = some g) (hw : f.world? i = some w)
    (hrec : w.Recorded (setups i)) (hs : World.Shift (setups i) w w')
    (h : World.Stride (setups i) id t w w') (hc : t.cluster = c) (ht : w.tasks[id]? = some t)
    (hserved : w.Served c) {t' : Task} {s : Nat} (ht' : w'.tasks[id]? = some t')
    (hstream : t'.position.stream? = some s)
    (hbefore : ∀ s, t.position.stream? = some s →
      w.Owed c ∨ t.position.owes = true ∨ Accounted setups f i c w t.position) :
    w'.Owed c ∨ t'.position.owes = true ∨ Accounted setups g i c w' t'.position := by
  subst hc
  have hserves : w'.serves t.cluster id = true := (hs.serves ht).trans (World.serves_of_task ht)
  have hushed : ∀ {v : World}, World.Apart id v w' → v.trace = w.trace →
      World.Hushed t.cluster w w' := fun hv hvt => by
    have hsilent : World.Silent w w' := by
      rw [World.Silent, ← hvt]
      exact hv.silent
    exact hsilent.hushed _
  cases h with
  | away h => exact absurd h.2 (World.not_streamless ht' hstream)
  | alike h hst hat halike =>
    rw [hat.position_eq ht'] at hstream ⊢
    rcases hbefore s (halike.stream ▸ hstream) with ho | ho | ha
    · exact .inl (h.owed ho)
    · exact .inr (.inl (halike.owes ▸ ho))
    · exact .inr (.inr (ha.alike next hrec hs (hushed h rfl) (by rw [halike.view, h.caches])
        (Position.pending_congr halike)))
  | opened _ _ hat =>
    refine .inr (.inl ?_)
    rw [hat.position_eq ht']
    obtain ⟨u, hu, hup⟩ := hserved
    exact List.any_eq_true.2 ⟨u, hu, hup⟩
  | woken h hst hl hat =>
    rw [hat.position_eq ht']
    rw [hl] at hbefore
    rcases hbefore _ rfl with ⟨u, hu, hup⟩ | ho | ha
    · exact .inr (.inl (List.any_eq_true.2 ⟨u, hu, hup⟩))
    · cases ho
    · exact .inr (.inr (ha.alike next hrec hs (hushed h rfl) (by rw [h.caches]; rfl) rfl))
  | @received s payload msg h hl hnext _ hat =>
    rw [hat.position_eq ht']
    rw [hl] at hbefore
    rcases hbefore _ rfl with ⟨u, hu, hup⟩ | ho | ha
    · exact .inr (.inl (List.any_eq_true.2 ⟨u, hu, hup⟩))
    · cases ho
    · have hlag : Position.pending (.passing s (.beforeDelivery msg (w.listeners.of t.cluster))
          (w.listeners.pending t.cluster)) = [msg] := by
        have hpos : 0 < (w.listeners.of t.cluster).countP Listener.isUpdater :=
          List.countP_pos_iff.2 hserved
        exact if_neg (Nat.ne_of_gt hpos)
      have htold : w'.trace.filter Mark.tells =
          [.dispatched id msg (w.listeners.of t.cluster)] ++ w.trace.filter Mark.tells := h.silent
      refine .inr (.inr (ha.grow next hrec hs htold ?_ ?_))
      · rw [h.caches]
        rfl
      · rw [hlag]
        simp [World.dispatched, World.applied, messagesOf, Mark.dispatch?, Mark.application?,
          hserves, Position.pending, Position.tally]
  | read h hst hl hat =>
    -- What is read now accounts for all that came before.
    obtain ⟨ms, hms⟩ := hs.trace
    have htold : w'.trace.filter Mark.tells = [] ++ w.trace.filter Mark.tells := h.silent
    obtain ⟨since, htrace, hd, ha⟩ := hrec.tells hs htold t.cluster
      (show w.trace = [] ++ w.trace from rfl)
    refine .inr (.inr ⟨f, w, since, Reaches.refl.move next, hw, htrace, ?_, ?_⟩)
    · rw [hat.position_eq ht', ha, ← store_of_world? hw]
      rfl
    · rw [hd]
      exact List.nil_sublist _
  | @replaced s pass l g' fields rest h hst hl hat =>
    rw [hat.position_eq ht']
    rw [hl] at hbefore
    rcases hbefore _ rfl with ho | ho | ha
    · exact .inl (h.owed ho)
    · exact .inr (.inl ho)
    · refine .inr (.inr (ha.alike next hrec hs (hushed h rfl) ?_ rfl))
      rw [h.caches, World.updateCache, Caches.entry_update, if_pos rfl]
      rfl
  | @applied s msg l rest e h hst hl hu he hat =>
    rw [hat.position_eq ht']
    rw [hl] at hbefore
    have hpending : Position.pending (.passing s (.delivery msg) (l :: rest)) = [msg] := by
      simp [Position.pending, Position.tally, Pass.tally, hu, Position.message?, Pass.message?]
    rcases hbefore _ rfl with ho | ho | ha
    · exact .inl (h.owed ho)
    · cases ho
    · have htold : w'.trace.filter Mark.tells =
          [.returned id l (.event msg) none] ++ w.trace.filter Mark.tells := by
        refine Eq.trans h.silent ?_
        simp [World.note, World.count, World.updateCache, Mark.tells, hu]
      have happlied : w'.applied t.cluster [.returned id l (.event msg) none] = [msg] := by
        cases l with
        | user name => cases hu
        | updater c n => simp [World.applied, messagesOf, Mark.application?, hserves]
      refine .inr (.inr (ha.grow next hrec hs htold ?_ ?_))
      · rw [happlied, h.caches]
        show ((w.caches.update t.cluster fun c => c.apply e).entry t.cluster).members = _
        rw [Caches.entry_update, if_pos rfl]
        simp only [replay, List.foldl_cons, List.foldl_nil, he]
        rfl
      · rw [happlied, hpending,
          show w'.dispatched t.cluster [.returned id l (.event msg) none] = [] from rfl]
        simp

/-- In every run, the newest task of a cluster with an updater accounts for all messages, unless an
updater is still to read the hash. -/
theorem accounted_of_reachable (hf : Reachable setups f) (hw : f.world? i = some w)
    (hl : w.Leads c id) (hserved : w.Served c) (ht : w.tasks[id]? = some t) {s : Nat}
    (hstream : t.position.stream? = some s) :
    w.Hopeless c ∨ w.Owed c ∨ t.position.owes = true ∨ Accounted setups f i c w t.position := by
  obtain ⟨store, clients, hs, h⟩ := hf
  induction h generalizing i w id t s with
  | refl =>
    rw [world?_start hw] at ht
    simp at ht
  | @move f g k m past next ih =>
    have hstreamed := Streamed.of_reachable ⟨store, clients, hs, past⟩
    obtain ⟨v, v', hv, hm, -, hi, hothers⟩ := move_cases next
    by_cases hk : k = i
    · subst hk
      cases hi.symm.trans hw
      have hsup := hstreamed.supervised hv
      have hrec := hstreamed.recorded hv
      obtain ⟨hkept, hproper⟩ := kept_of_reachable ⟨store, clients, hs, past⟩ hv
      have hhappens := World.move_happens hsup hproper hm
      have hshift := (hrec.move hsup hm).2
      rcases hhappens.turn hsup hkept hm hl hserved ht hstream with
        ho | hhope | hsteady | ⟨r, -, hr, hrc, hstride⟩
      · exact .inr (.inl ho)
      · exact .inl hhope
      · obtain ⟨r, hr, ha⟩ := hsteady.task
        rcases ih hv hsteady.leads hsteady.served hr (ha.stream ▸ hstream) with
          hhope | ho | ho | hacc
        · exact .inl (hhope.happens hsup hm hhappens)
        · exact .inr (.inl (hsteady.owed ho))
        · exact .inr (.inr (.inl (ha.owes ▸ ho)))
        · exact .inr (.inr (.inr (hacc.alike next hrec hshift hsteady.hushed
            (by rw [ha.view, hsteady.members]) (Position.pending_congr ha))))
      · have hserved' := (hstride.served c).1 hserved
        by_cases hhope : v.Hopeless c
        · exact .inl (hhope.happens hsup hm hhappens)
        · refine .inr (Accounted.stride next hv hrec hshift hstride hrc hr hserved' ht hstream
            fun s hstream => ?_)
          exact (ih hv (hstride.leads hl) hserved' hr hstream).resolve_left hhope
    · rw [hothers i hk] at hw
      obtain ⟨u, hu, rfl⟩ := Option.map_eq_some_iff.1 hw
      rcases ih hu hl hserved ht hstream with hhope | ho | ho | hacc
      · have hstart : ∀ who, ({ u with store := v'.store } : World).intent? who ≠
            some (.start c) := fun who => World.intent?_congr (w := u) rfl rfl who ▸ hhope.start who
        exact .inl ⟨hhope.closed, hhope.cell, hstart⟩
      · exact .inr (.inl ho)
      · exact .inr (.inr (.inl ho))
      · obtain ⟨g₀, u₀, since, hreach, hu₀, hrest⟩ := hacc
        exact .inr (.inr (.inr ⟨g₀, u₀, since, hreach.move next, hu₀, hrest⟩))

variable {x : View} {v : World}

/-- A view that is answered as fresh shows the cache. Unless an updater of the cluster has still to
be synchronised, there was a reading of the hash such that the view shows what it and the messages
applied since make, and every message that the cluster's tasks passed on since then was applied,
but for one that is being delivered. -/
theorem fresh_view_accounts (hf : Reachable setups f) (hw : f.world? i = some w)
    (hx : w.Answers (setups i) m (.view x) v) (hfresh : x.stale = false)
    (next : f.move setups i m = some g) (hw' : g.world? i = some w') :
    x.addresses = Address.sort (w'.caches.entry x.cluster).members ∧
    ∃ id t, w'.Leads x.cluster id ∧ w'.tasks[id]? = some t ∧
      (w'.Owed x.cluster ∨ t.position.owes = true ∨ t.position.reply?.isSome = true ∨
        ∃ h u since, Reaches setups h g ∧ h.world? i = some u ∧ w'.trace = since ++ u.trace ∧
          x.addresses = Address.sort (replay (w'.applied x.cluster since)
            (addressesOf (h.store.hash (registryKey x.cluster)).entries).eraseDups) ∧
          (w'.dispatched x.cluster since).Sublist
            (w'.applied x.cluster since ++ t.position.pending)) := by
  obtain ⟨u, u', hu, hm, -, hu', -⟩ := move_cases next
  cases hw.symm.trans hu
  cases hw'.symm.trans hu'
  have hg : Reachable setups g := hf.reaches (Reaches.refl.move next)
  have hshows := hx.shows hm
  have hactive : w'.status? x.cluster = some .active := by
    have hstatus := hshows.status
    simp only [View.stale, hstatus, Status.isLive] at hfresh
    cases hs : w'.status? x.cluster with
    | none => simp [hs] at hfresh
    | some s => simpa [hs] using hfresh
  have hr := World.Ruled.of_reachable hg hw'
  obtain ⟨slot, hslot, hslota⟩ := Option.map_eq_some_iff.1 hactive
  obtain ⟨id, hn⟩ := (hr.slot hslot).2
  have hl := hr.newest.1 hn
  have hlead := hl
  obtain ⟨t, -, ht, -⟩ := hlead
  have hsuits := hr.suits hl ht hslot
  rw [hslota] at hsuits
  obtain ⟨s, hstream⟩ := hsuits.stream
  have hserved := (kept_of_reachable hg hw').1.loaded x.cluster hshows.loaded
  refine ⟨hshows.addresses, id, t, hl, ht, ?_⟩
  rcases accounted_of_reachable hg hw' hl hserved ht hstream with hhope | ho | ho | hacc
  · exact absurd hshows.loaded hhope.cell
  · exact .inl ho
  · exact .inr (.inl ho)
  · cases hreply : t.position.reply? with
    | some fields => exact .inr (.inr (.inl rfl))
    | none =>
      obtain ⟨h, u, since, hreach, hu, htrace, hview, hsub⟩ := hacc
      refine .inr (.inr (.inr ⟨h, u, since, hreach, hu, htrace, ?_, hsub⟩))
      rw [hshows.addresses, ← hview, Position.view, hreply]

/-- A cluster is loaded and an event arrives before its view is asked for. -/
theorem fresh_view_accounts_event : ∃ f w g w' x v, Reachable (fun _ => .mapped "me@here" "c") f ∧
    f.world? 0 = some w ∧ w.Answers (.mapped "me@here" "c") (.ask 2 (.view "k")) (.view x) v ∧
    f.move (fun _ => .mapped "me@here" "c") 0 (.ask 2 (.view "k")) = some g ∧
    g.world? 0 = some w' ∧ x.stale = false ∧
    (w'.caches.entry x.cluster).members.map Address.text = ["10.0.0.1:8091"] ∧
    ∃ (h : Fleet) (u : World) (since : List Mark) (id : Nat) (t : Task),
      Reaches (fun _ => .mapped "me@here" "c") h g ∧ h.world? 0 = some u ∧
      w'.trace = since ++ u.trace ∧ w'.tasks[id]? = some t ∧
      x.addresses = Address.sort (replay (w'.applied x.cluster since)
        (addressesOf (h.store.hash (registryKey x.cluster)).entries).eraseDups) ∧
      (w'.dispatched x.cluster since).Sublist
        (w'.applied x.cluster since ++ t.position.pending) := by
  obtain ⟨f, hf, hp⟩ := (Option.any_eq_true _ _).1 (show
    ((start .usual 1).run (fun _ => .mapped "me@here" "c")
      ((0, .ask 0 (.lookup "k")) :: List.replicate 2 (0, .step (.call 0)) ++
        List.replicate 5 (0, .step (.task 0)) ++ [(0, .step (.call 0)),
        (0, .ask 1 (.send "registry.redis.c" ["10.0.0.1:8091-REGISTER"]))] ++
        List.replicate 4 (0, .step (.task 0)))).any (fun f => (f.world? 0).any fun w =>
      ((w.shown? (.mapped "me@here" "c") (.ask 2 (.view "k"))).any fun x =>
        !x.stale && x.cluster == "c") &&
      (f.move (fun _ => .mapped "me@here" "c") 0 (.ask 2 (.view "k"))).any fun g =>
        (g.world? 0).any fun w' =>
          (w'.caches.entry "c").members.map Address.text == ["10.0.0.1:8091"] &&
          w'.listeners.pending "c" == [] &&
          w'.tasks.all fun t : Task => !t.position.owes && t.position.reply?.isNone) = true
    by decide +kernel)
  simp only [Option.any_eq_true, Bool.and_eq_true, Bool.not_eq_true', beq_iff_eq,
    List.all_eq_true] at hp
  obtain ⟨w, hw, ⟨x, hx, hfresh, hc⟩, g, next, w', hw', ⟨hmembers, hqueue⟩, hidle⟩ := hp
  obtain ⟨v, hv⟩ := World.answers_of_shown? hx
  have hreach := reachable_of_run rfl hf
  obtain ⟨-, id, t, -, ht, hrest⟩ := fresh_view_accounts hreach hw hv hfresh next hw'
  obtain ⟨howes, hreply⟩ := hidle t (List.mem_of_getElem? ht)
  refine ⟨f, w, g, w', x, v, hreach, hw, hv, next, hw', hfresh, hc ▸ hmembers, ?_⟩
  rcases hrest with ⟨l, hl, -⟩ | ho | hr | ⟨h, u, since, hhg, hu, htrace, hfold, hsub⟩
  · rw [hc, hqueue] at hl
    cases hl
  · rw [howes] at ho
    cases ho
  · rw [Option.isNone_iff_eq_none.1 hreply] at hr
    cases hr
  · exact ⟨h, u, since, id, t, hhg, hu, htrace, ht, hfold, hsub⟩

/-- A listener of the user keeps the cluster active when a view is asked for. The hash is read, an
address is registered and announced, and only then the reply arrives: the view is called fresh,
but the event was passed on after the only reading, and nobody applied it. -/
theorem fresh_view_overlooks : ∃ f w g w' x v since m past,
    Reachable (fun _ => .mapped "me@here" "c") f ∧ f.world? 0 = some w ∧
    w.Answers (.mapped "me@here" "c") (.step (.call 1)) (.view x) v ∧
    f.move (fun _ => .mapped "me@here" "c") 0 (.step (.call 1)) = some g ∧
    g.world? 0 = some w' ∧ x.stale = false ∧ x.cluster = "c" ∧ x.addresses = [] ∧
    w'.trace = since ++ m :: past ∧ m.isReading = true ∧
    (∀ m' ∈ since ++ past, m'.isReading = false) ∧
    w'.dispatched "c" since = ["10.0.0.1:8091-REGISTER"] ∧ w'.applied "c" w'.trace = [] := by
  obtain ⟨f, hf, hp⟩ := (Option.any_eq_true _ _).1 (show
    ((start .usual 1).run (fun _ => .mapped "me@here" "c")
      ((0, .ask 0 (.attach "c" "a")) :: List.replicate 4 (0, .step (.task 0)) ++
        [(0, .ask 1 (.view "k")), (0, .step (.call 1)),
        (0, .ask 2 (.register "10.0.0.1:8091"))] ++ List.replicate 2 (0, .step (.call 2)) ++
        List.replicate 4 (0, .step (.task 0)))).any (fun f => (f.world? 0).any fun w =>
      ((w.shown? (.mapped "me@here" "c") (.step (.call 1))).any fun x =>
        !x.stale && x.cluster == "c" && x.addresses == []) &&
      (f.move (fun _ => .mapped "me@here" "c") 0 (.step (.call 1))).any fun g =>
        (g.world? 0).any fun w' => w'.overlooks "c" "10.0.0.1:8091-REGISTER") = true
    by decide +kernel)
  simp only [Option.any_eq_true, Bool.and_eq_true, Bool.not_eq_true', beq_iff_eq] at hp
  obtain ⟨w, hw, ⟨x, hx, ⟨hfresh, hc⟩, hempty⟩, g, next, w', hw', hover⟩ := hp
  obtain ⟨v, hv⟩ := World.answers_of_shown? hx
  obtain ⟨since, m, past, htrace, hm, hnone, hd, ha⟩ := World.of_overlooks hover
  exact ⟨f, w, g, w', x, v, since, m, past, reachable_of_run rfl hf, hw, hv, next, hw', hfresh, hc,
    hempty, htrace, hm, hnone, hd, ha⟩

end Fleet

end Muster
