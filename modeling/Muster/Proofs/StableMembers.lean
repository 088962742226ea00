import Muster.Proofs.Answers
import Muster.Proofs.Hashes
import Muster.Proofs.SingleFlight
import Muster.Proofs.Updaters

/-!
# Members that stay

A cache is filled with a reply of the hash, for a lookup or for an updater, and it changes by the
events that an updater applies (`World.Fills`). So an address that the hash lists all along, and
that no message is about, is in every lookup that succeeds, and one that the hash never lists is in
none (`Fleet.stable_member`).
-/
namespace Muster

/-- The event that an item of a channel is read as. -/
def Setup.heard? (setup : Setup) : Item → Option Event
  | .payload p => (setup.screen p).toOption.bind fun m => (Event.decode m).toOption
  | .disconnect => none

/-- The hash of a cluster lists an address, or it does not, and no message on its channel is about
the address. -/
def Setup.Stable (setup : Setup) (c : String) (a : Address) (listed : Bool) (s : Memory) : Prop :=
  (s.Lists (registryKey c) a ↔ listed = true) ∧
    ∀ x ∈ s.log (registryKey c), ∀ e ∈ setup.heard? x, e.address ≠ a

instance (setup : Setup) (c : String) (a : Address) (listed : Bool) (s : Memory) :
    Decidable (setup.Stable c a listed s) :=
  inferInstanceAs (Decidable ((a ∈ addressesOf (s.hash (registryKey c)).entries ↔ listed = true) ∧
    ∀ x ∈ s.log (registryKey c), ∀ e ∈ setup.heard? x, e.address ≠ a))

/-- The addresses that a lookup answers with. -/
def Answer.found? : Answer → Option (List Address)
  | .addresses as => some as
  | .view x => some x.addresses
  | _ => none

/-- The addresses that a lookup which is finished answers with. -/
def Progress.found? : Progress → Option (List Address)
  | .finished r => r.found?
  | .paused _ => none

theorem Progress.finished_of_found? {p : Progress} {as : List Address} (h : p.found? = some as) :
    ∃ r, p = .finished r ∧ r.found? = some as := by
  cases p with
  | finished r => exact ⟨r, rfl, h⟩
  | paused stage => cases h

/-- The key that an action looks up. -/
def Action.key? : Action → Option String
  | .lookup key | .view key => some key
  | _ => none

/-- The canonical field of an address that can be read lists the address. -/
theorem Memory.lists_of_text {s : Memory} {key : String} {a : Address} (ha : a.isPlain = true)
    (h : (s.hash key).contains a.text = true) : s.Lists key a :=
  Memory.lists_iff.2 ⟨a.text, h, Address.ofText?_text ha⟩

theorem Position.reply?_of_stream? {p : Position} (h : p.stream? = none) : p.reply? = none := by
  cases p <;> first | rfl | cases h

theorem Position.message?_of_stream? {p : Position} (h : p.stream? = none) :
    p.message? = none := by
  cases p <;> first | rfl | cases h

/-- What a stream reads was sent on its channel. -/
theorem Memory.mem_log_of_next {m m' : Memory} {key text : String} {s : Nat}
    (h : m.next key s = (.message text, m')) : .payload text ∈ m.log key := by
  cases hs : m.position? key s with
  | some n => exact List.mem_of_getElem? (Memory.next_message h hs).1
  | none =>
    unfold Memory.next at h
    split at h
    · cases h
    · next c hc =>
      have hnone : c.position? s = none := by simpa [Memory.position?, hc] using hs
      simp [Channel.next, hnone] at h

namespace World

variable {setup : Setup} {w v w' : World} {m : Move} {c : String} {who : Actor} {p : Progress}
  {stage : Stage} {load : Load} {fields : List (String × String)} {g : Gate} {id : Nat} {t : Task}
  {a : Address} {listed : Bool}

/-! ## Replies on their way -/

/-- A lookup that begins is refused, or served, or stands before its reading. -/
theorem beginLoad_cases {key : String} {view : Bool}
    (h : w.beginLoad setup who key view = (v, p)) :
    (∃ f, p = .finished (.failed f)) ∨ ∃ c, setup.source.cluster? key = some c ∧
      (p = .finished (v.loadedAnswer ⟨c, view⟩) ∧ v.cell c = .loaded ∨
        p = .paused (.reading ⟨c, view⟩ .arriving) ∨ p = .paused (.queued ⟨c, view⟩)) := by
  unfold beginLoad at h
  split at h
  · cases h
    exact .inl ⟨_, rfl⟩
  · dsimp only at h
    split at h
    · cases h
      exact .inl ⟨_, rfl⟩
    · next c hkey =>
      refine .inr ⟨c, hkey, ?_⟩
      split at h
      · next hc =>
        cases h
        exact .inl ⟨rfl, hc⟩
      · split at h <;> cases h
        · exact .inr (.inl rfl)
        · exact .inr (.inr rfl)
      · cases h
        exact .inr (.inr rfl)

theorem begin_replied {b : Action} (h : w.begin setup who b = (v, p)) :
    p.stage? ≠ some (.replied load fields g) := by
  have looked : ∀ {key : String} {view : Bool}, w.beginLoad setup who key view = (v, p) →
      p.stage? ≠ some (.replied load fields g) := fun h => by
    rcases beginLoad_cases h with ⟨f, rfl⟩ | ⟨c, -, ⟨rfl, -⟩ | rfl | rfl⟩ <;> intro hp <;> cases hp
  by_cases hb : ∃ key, b = .lookup key ∨ b = .view key
  · obtain ⟨key, rfl | rfl⟩ := hb
    · exact looked h
    · exact looked h
  · obtain ⟨-, hpost⟩ :=
      begin_beside (fun key => ⟨fun heq => hb ⟨key, .inl heq⟩, fun heq => hb ⟨key, .inr heq⟩⟩) h
    intro hp
    rw [hp] at hpost
    cases hpost

theorem awaitStart_replied {load' : Load} :
    (w.awaitStart load').2.stage? ≠ some (.replied load fields g) := by
  rcases awaitStart_cases w load' with heq | ⟨seen, heq⟩ <;> rw [heq] <;> intro h <;> cases h

/-- A reply on its way was so before, or the hash has just been read. -/
theorem resume_replied (h : w.resume setup who stage = some (v, p))
    (hp : p.stage? = some (.replied load fields g)) :
    (∃ g', stage = .replied load fields g') ∨
      fields = (w.store.hash (registryKey load.cluster)).entries := by
  cases stage with
  | queued load' =>
    simp only [resume] at h
    split at h
    · cases h
      cases hp
    · split at h <;> cases h
      cases hp
    · cases h
  | reading load' g' =>
    rcases throughGate_cases h with hr | hr
    · cases hr
      cases hp
    · obtain ⟨-, hfields⟩ := readFields_store w who (registryKey load'.cluster)
      unfold read at hr
      split at hr <;> cases hr
      · cases hp
      · next hread =>
        cases hp
        exact .inr (hfields _ (by rw [hread]))
  | replied load' fields' g' =>
    rcases throughGate_cases h with hr | hr
    · cases hr
      cases hp
      exact .inl ⟨_, rfl⟩
    · unfold takeSnapshot at hr
      dsimp only at hr
      split at hr
      · cases hr
        cases hp
      · next u _ =>
        have hp' : (u.awaitStart load').2.stage? = some (.replied load fields g) := by
          rw [← hr]
          exact hp
        exact absurd hp' awaitStart_replied
  | starting load' seen =>
    simp only [resume] at h
    split at h
    · split at h
      · cases h
      · have hp' : (w.awaitStart load').2.stage? = some (.replied load fields g) := by
          rw [Option.some.inj h]
          exact hp
        exact absurd hp' awaitStart_replied
    · cases h
  | _ =>
    have hpost := (resume_beside rfl h).2
    rw [hp] at hpost
    cases hpost

theorem Course.replied (h : Course setup w m w') (hs : Supervised w)
    (hp : w'.stage? who = some (.replied load fields g)) :
    (∃ g', w.stage? who = some (.replied load fields g')) ∨
      fields = (w.store.hash (registryKey load.cluster)).entries := by
  cases h with
  | @begun who' b mark v p _ hnone _ hrun h =>
    have hs' : Supervised (w.note mark) := hs.rests (.note w mark)
    by_cases hwho : who' = who
    · subst hwho
      exact absurd (h.mine.symm.trans hp) (begin_replied hrun)
    · have hsame : w'.stage? who = w.stage? who :=
        (h.others who hwho).trans (begin_stages hs' hrun who)
      exact .inl ⟨g, hsame ▸ hp⟩
  | @resumed who' stage v p _ hst hrun h =>
    by_cases hwho : who' = who
    · subst hwho
      rcases resume_replied hrun (h.mine.symm.trans hp) with ⟨g', rfl⟩ | hfields
      · exact .inl ⟨g', hst⟩
      · exact .inr hfields
    · have hsame : w'.stage? who = w.stage? who :=
        (h.others who hwho).trans (resume_stages hs hrun who)
      exact .inl ⟨g, hsame ▸ hp⟩
  | @dropped who' stage _ _ hmine hothers =>
    by_cases hwho : who' = who
    · subst hwho
      cases hmine.symm.trans hp
    · exact .inl ⟨g, hothers who hwho ▸ hp⟩
  | apart hst =>
    have hclear := hst who
    rw [hp] at hclear
    cases hold : w.stage? who with
    | none => simp [hold] at hclear
    | some stage =>
      cases stage <;> simp_all [Stage.clear]

/-! ## How a cache is filled -/

theorem takeSnapshot_members (hsup : Supervised w) (load : Load)
    (fields : List (String × String)) (c : String) :
    ((w.takeSnapshot setup load fields).1.caches.entry c).members =
      if load.cluster = c then (addressesOf fields).eraseDups else (w.caches.entry c).members := by
  obtain ⟨u, -, -, -, hcaches, -, hcase⟩ := takeSnapshot_cases setup hsup load fields
  have hu : (u.caches.entry c).members =
      if load.cluster = c then (addressesOf fields).eraseDups else (w.caches.entry c).members := by
    rw [hcaches, Caches.entry_update]
    split <;> rfl
  rcases hcase with ⟨f, -, -, heq⟩ | ⟨-, -, -, -, heq⟩ <;> rw [heq]
  · exact (members_updateCell u _ _ c).trans hu
  · rcases awaitStart_cases u load with heq | ⟨seen, heq⟩ <;> rw [heq]
    · exact (members_updateCell u _ _ c).trans hu
    · exact hu

/-- What a move does to the cache of a cluster. -/
inductive Fills (setup : Setup) (c : String) (w w' : World) : Prop where
  | kept (hm : (w'.caches.entry c).members = (w.caches.entry c).members)
      (hs : w'.Seated c → w.Seated c)
  /-- A lookup has it filled with a reply. -/
  | filled {who : Actor} {load : Load} {fields : List (String × String)} {g : Gate}
      (hst : w.stage? who = some (.replied load fields g)) (hc : load.cluster = c)
      (hm : (w'.caches.entry c).members = (addressesOf fields).eraseDups)
  | strode {id : Nat} {t : Task} (ht : w.tasks[id]? = some t) (hc : t.cluster = c)
      (h : Stride setup id t w w')

/-- A deed leaves the cache as it is, unless it fills it. -/
theorem Deed.fills {loose : Prop} {before after : Option Intent}
    (d : Deed setup loose who w before v after) (hs : Supervised w) (c : String) :
    (before = some (.fill c) ∧ after ≠ some (.fill c)) ∨
    (v.caches.entry c).members = (w.caches.entry c).members ∧
    (v.cell c = .loaded → w.cell c = .loaded ∨ before = some (.start c)) ∧
    (after = some (.start c) → before = some (.start c)) := by
  cases d with
  | light h _ _ _ ha =>
    exact .inr ⟨h.members c, fun hl => .inl (h.loaded c hl),
      fun hx => (ha _ hx).elim (fun h => h) False.elim⟩
  | wrote h => exact .inr ⟨h.members c, fun hl => .inl (h.loaded c hl), fun hx => by cases hx⟩
  | announced h => exact .inr ⟨h.members c, fun hl => .inl (h.loaded c hl), fun hx => by cases hx⟩
  | @refilled load fields hfill =>
    by_cases hne : load.cluster = c
    · exact .inl ⟨hne ▸ hfill, fun hx => by cases (takeSnapshot_intent? hs hx).1⟩
    · refine .inr ⟨(takeSnapshot_members hs load fields c).trans (if_neg hne),
        fun hl => .inl ((takeSnapshot_cell hs hne).symm.trans hl), fun hx => ?_⟩
      cases (takeSnapshot_intent? hs hx).1
      exact absurd rfl hne
  | @started load hstart =>
    have hmembers : ((w.awaitStart load).1.caches.entry c).members =
        (w.caches.entry c).members := by
      rcases awaitStart_cases w load with heq | ⟨seen, heq⟩ <;> rw [heq]
      exact members_updateCell w _ _ c
    refine .inr ⟨hmembers, fun hl => ?_, fun hx => ?_⟩
    · by_cases hc : load.cluster = c
      · exact .inr (hc ▸ hstart)
      · exact .inl ((awaitStart_cell hc).symm.trans hl)
    · cases (awaitStart_intent? hx).1
      exact hstart

/-- A call that is given up fills no cache. -/
theorem dropped_members (hd : w.dropped? m = some who) (hm : w.move setup m = some w')
    (c : String) : (w'.caches.entry c).members = (w.caches.entry c).members := by
  have left : ∀ (who : Actor) (stage : Stage),
      ((w.abandon who stage).caches.entry c).members = (w.caches.entry c).members := by
    intro who stage
    rcases abandon_cases w who stage with heq | ⟨k, heq⟩ <;> rw [heq]
    exact members_updateCell w k _ c
  cases m with
  | drop call =>
    cases hm
    unfold dropCall
    split
    · rfl
    · exact left _ _
  | step b =>
    cases b with
    | call call => cases hd
    | task id =>
      obtain ⟨t, ht, hm⟩ := Option.bind_eq_some_iff.1 hm
      obtain ⟨⟨hcan, he⟩, -⟩ : (t.cancelled = true ∧ t.isEnded = false) ∧ .task id = who := by
        simpa [dropped?, ht] using hd
      rw [stepTask, if_neg (by simp [he]), if_pos hcan] at hm
      cases hm
      rw [(stopTask_leaves ht).1.caches]
      cases t.position.stage? with
      | none => rfl
      | some stage => exact left _ stage
  | _ => cases hd

theorem move_fills (hs : Supervised w) (hp : w.Proper) (hm : w.move setup m = some w')
    (c : String) : Fills setup c w w' := by
  -- What an actor has in mind is settled with its call.
  have settled : ∀ {who : Actor} {p : Progress} {v : World} {before : Option Intent},
      w.intent? who = before → Settled who p v w' → (∀ who', v.stage? who' = w.stage? who') →
      (v.caches.entry c).members = (w.caches.entry c).members →
      (v.cell c = .loaded → w.cell c = .loaded ∨ before = some (.start c)) →
      (p.intent? = some (.start c) → before = some (.start c)) → Fills setup c w w' := by
    intro who p v before hb h hstages hmembers hl hx
    refine .kept (by rw [h.caches]; exact hmembers) fun hseat => ?_
    rcases hseat with hloaded | ⟨who', hstart⟩
    · rw [cell, h.caches] at hloaded
      exact (hl hloaded).imp_right fun hbefore => ⟨who, hb.trans hbefore⟩
    · by_cases hwho : who = who'
      · subst hwho
        have hmine : w'.intent? who = p.intent? := by
          rw [intent?_eq, h.mine]
          cases p <;> simp [Progress.stage?, Progress.intent?, Stage.intent?_clear]
        exact .inr ⟨who, hb.trans (hx (hmine.symm.trans hstart))⟩
      · have hsame : w'.stage? who' = w.stage? who' := (h.others who' hwho).trans (hstages who')
        exact .inr ⟨who', (intent?_of_stage? (congrArg _ hsame)).symm.trans hstart⟩
  cases move_course hp hm with
  | @begun who b mark v p _ hnone _ hrun h =>
    have hs' : Supervised (w.note mark) := hs.rests (.note w mark)
    have hd := @begin_deed setup (w.note mark) who b
    rw [hrun] at hd
    have hnone' : w.intent? who = none := by rw [intent?_eq, hnone]; rfl
    rcases hd.fills hs' c with ⟨hfill, -⟩ | ⟨hmembers, hl, hx⟩
    · cases hfill
    · have hstages := begin_stages hs' hrun
      exact settled hnone' h hstages hmembers hl hx
  | @resumed who stage v p _ hst hrun h =>
    have hd : Deed setup False who w stage.intent? v p.intent? := resume_deed hrun
    have hsome : w.intent? who = stage.intent? := by
      rw [intent?_eq, hst]
      exact Stage.intent?_clear stage
    rcases hd.fills hs c with ⟨hfill, hafter⟩ | ⟨hmembers, hl, hx⟩
    · cases stage with
      | replied load fields g =>
        cases hfill
        rcases throughGate_cases hrun with hr | hr
        · cases hr
          exact absurd rfl hafter
        · have hread : ((w.takeSnapshot setup load fields).1.caches.entry load.cluster).members =
              (addressesOf fields).eraseDups :=
            (takeSnapshot_members hs load fields load.cluster).trans (if_pos rfl)
          rw [← hr] at hread
          exact .filled hst rfl (by rw [h.caches]; exact hread)
      | _ => cases hfill
    · exact settled hsome h (resume_stages hs hrun) hmembers hl hx
  | @dropped who stage hd _ hmine hothers hcell =>
    refine .kept (dropped_members hd hm c) fun hseat => ?_
    rcases hseat with hloaded | ⟨who', hstart⟩
    · rw [hcell] at hloaded
      rcases cell_of_left (abandon_cases w who stage) c with hc | hc
      · exact .inl (hc ▸ hloaded)
      · exact .inl (Cell.leave_eq_loaded (hc ▸ hloaded))
    · by_cases hwho : who = who'
      · subst hwho
        rw [intent?_eq, hmine] at hstart
        cases hstart
      · exact .inr ⟨who', (intent?_of_stage? (congrArg _ (hothers who' hwho))).symm.trans hstart⟩
  | apart hst hcell =>
    have hintents := fun who => intent?_of_stage? (hst who)
    have seat : w'.Seated c → w.Seated c := fun hseat =>
      hseat.imp (fun hl => (hcell c).symm.trans hl)
        (Exists.imp fun who hstart => (hintents who).symm.trans hstart)
    cases move_happens hs hp hm with
    | @acted who trace v after _ d h =>
      have hs' : Supervised { w with trace } := hs.rests (.quiet rfl rfl rfl rfl rfl)
      rcases d.fills hs' c with ⟨hfill, hafter⟩ | ⟨hmembers, -, -⟩
      · exact absurd (h.mine.symm.trans ((hintents who).trans hfill)) hafter
      · exact .kept (by rw [h.caches]; exact hmembers) seat
    | rested h => exact .kept (h.members c) seat
    | dropped _ h => exact .kept (h.members c) seat
    | stopped hd => exact .kept (dropped_members hd hm c) seat
    | @strode id t _ ht _ h =>
      by_cases hc : t.cluster = c
      · exact .strode ht hc h
      · exact .kept (h.members hc) seat

/-! ## What all that reaches the cache says of an address -/

/-- Replies on their way list the address or not, just as the hash does; the messages tasks pass
on are not about it; and a cache that was filled agrees. -/
structure Firm (c : String) (a : Address) (listed : Bool) (w : World) : Prop where
  replies : ∀ {who : Actor} {load : Load} {fields : List (String × String)} {g : Gate},
    w.stage? who = some (.replied load fields g) → load.cluster = c →
    (a ∈ addressesOf fields ↔ listed = true)
  synced : ∀ {id : Nat} {t : Task} {fields : List (String × String)}, w.tasks[id]? = some t →
    t.cluster = c → t.position.reply? = some fields → (a ∈ addressesOf fields ↔ listed = true)
  calm : ∀ {id : Nat} {t : Task} {m : String} {e : Event}, w.tasks[id]? = some t →
    t.cluster = c → t.position.message? = some m → Event.decode m = .ok e → e.address ≠ a
  members : w.Seated c → (a ∈ (w.caches.entry c).members ↔ listed = true)

namespace Firm

theorem start (store : Memory) (c : String) (a : Address) (listed : Bool) :
    Firm c a listed { store } := by
  refine ⟨fun {who load fields g} h => ?_, fun h => ?_, fun h => ?_, fun h => ?_⟩
  · cases who <;> simp [stage?] at h
  · simp at h
  · simp at h
  · rcases h with hl | ⟨who, h⟩
    · cases hl
    · cases who <;> simp [intent?] at h

theorem store (h : Firm c a listed w) (store : Memory) : Firm c a listed { w with store } where
  replies hst := h.replies ((stage?_congr (w := w) rfl rfl _).symm.trans hst)
  synced := h.synced
  calm := h.calm
  members hseat := h.members (hseat.imp_right (Exists.imp fun who hx =>
    (intent?_congr (w := w) rfl rfl who).symm.trans hx))

/-- What a task of the cluster does by itself. -/
theorem stride (h : Firm c a listed w) (hstore : setup.Stable c a listed w.store)
    (ht : w.tasks[id]? = some t) (hc : t.cluster = c) (hstride : Stride setup id t w w') :
    (∀ {t' : Task} {fields : List (String × String)}, w'.tasks[id]? = some t' →
      t'.position.reply? = some fields → (a ∈ addressesOf fields ↔ listed = true)) ∧
    (∀ {t' : Task} {m : String} {e : Event}, w'.tasks[id]? = some t' →
      t'.position.message? = some m → Event.decode m = .ok e → e.address ≠ a) ∧
    (w'.Seated c → (a ∈ (w'.caches.entry c).members ↔ listed = true)) := by
  have seat : w'.Seated c → w.Seated c := fun hseat =>
    hseat.imp (fun hl => (hstride.cell c).symm.trans hl)
      (Exists.imp fun who hx => (hstride.intents ht who).symm.trans hx)
  have same : w'.caches = w.caches → w'.Seated c →
      (a ∈ (w'.caches.entry c).members ↔ listed = true) := fun heq hseat => by
    rw [heq]
    exact h.members (seat hseat)
  have calm : ∀ {m : String} {e : Event}, t.position.message? = some m →
      Event.decode m = .ok e → e.address ≠ a := h.calm ht hc
  -- Wherever the task stands then, it has no reply, and no message but the one it had.
  have stands : ∀ {p : Position}, At id w' p → p.reply? = none →
      (∀ m, p.message? = some m → t.position.message? = some m) →
      (∀ {t' : Task} {fields : List (String × String)}, w'.tasks[id]? = some t' →
        t'.position.reply? = some fields → (a ∈ addressesOf fields ↔ listed = true)) ∧
      ∀ {t' : Task} {m : String} {e : Event}, w'.tasks[id]? = some t' →
        t'.position.message? = some m → Event.decode m = .ok e → e.address ≠ a := by
    intro p hat hreply hmessage
    refine ⟨fun ht' hr => ?_, fun ht' hm => ?_⟩
    · rw [hat.position_eq ht', hreply] at hr
      cases hr
    · rw [hat.position_eq ht'] at hm
      exact calm (hmessage _ hm)
  cases hstride with
  | away hl =>
    obtain ⟨happart, t', ht', hstream⟩ := hl
    obtain ⟨hreply, hmessage⟩ := stands ⟨t', ht', rfl⟩ (Position.reply?_of_stream? hstream)
      (by simp [Position.message?_of_stream? hstream])
    exact ⟨hreply, hmessage, same happart.caches⟩
  | alike ha _ hat halike =>
    refine ⟨fun ht' hr => ?_, fun ht' hm => ?_, same ha.caches⟩
    · rw [hat.position_eq ht', halike.reply] at hr
      exact h.synced ht hc hr
    · rw [hat.position_eq ht'] at hm
      exact calm (halike.message _ hm)
  | opened ha _ hat =>
    obtain ⟨hreply, hmessage⟩ := stands hat rfl (by simp [Position.message?, Pass.message?])
    exact ⟨hreply, hmessage, same ha.caches⟩
  | woken ha _ _ hat =>
    obtain ⟨hreply, hmessage⟩ := stands hat rfl (by simp [Position.message?, Pass.message?])
    exact ⟨hreply, hmessage, same ha.caches⟩
  | @received s payload m ha _ hnext hscreen hat =>
    have hsent := hstore.2 _ (hc ▸ Memory.mem_log_of_next hnext)
    refine ⟨fun ht' hr => ?_, fun ht' hm he => ?_, same ha.caches⟩
    · rw [hat.position_eq ht'] at hr
      cases hr
    · rw [hat.position_eq ht'] at hm
      cases hm
      exact hsent _ (by simp [Setup.heard?, hscreen, he, Except.toOption])
  | read ha _ hl hat =>
    refine ⟨fun ht' hr => ?_, fun ht' hm => ?_, same ha.caches⟩
    · rw [hat.position_eq ht'] at hr
      cases hr
      rw [hc]
      exact hstore.1
    · rw [hat.position_eq ht'] at hm
      exact calm (by rw [hl]; exact hm)
  | @replaced s pass l g fields rest ha _ hl hat =>
    obtain ⟨hreply, hmessage⟩ := stands hat rfl fun m hm => by rw [hl]; exact hm
    refine ⟨hreply, hmessage, fun _ => ?_⟩
    have hmembers : (w'.caches.entry c).members = (addressesOf fields).eraseDups := by
      rw [ha.caches, ← hc]
      simp [updateCache, Caches.entry_update, Membership.replace]
    rw [hmembers, List.mem_eraseDups]
    exact h.synced ht hc (by rw [hl]; rfl)
  | @applied s m l rest e ha _ hl _ he hat =>
    obtain ⟨hreply, hmessage⟩ := stands hat rfl fun m hm => by rw [hl]; exact hm
    refine ⟨hreply, hmessage, fun hseat => ?_⟩
    have hentry : w'.caches.entry c = (w.caches.entry c).apply e := by
      rw [ha.caches, ← hc]
      simp [World.note, World.count, updateCache, Caches.entry_update]
    rw [hentry, Membership.mem_apply_of_ne (calm (by rw [hl]; rfl) he)]
    exact h.members (seat hseat)

theorem move (h : Firm c a listed w) (hs : Supervised w) (hp : w.Proper)
    (hstore : setup.Stable c a listed w.store) (hm : w.move setup m = some w') :
    Firm c a listed w' := by
  have hcourse := move_course hp hm
  have hhappens := move_happens hs hp hm
  have hlasts := Lasts.move hm
  -- A task with a stream went on as before, or by itself.
  have tasks : ∀ {id : Nat} {t' : Task} {s : Nat}, w'.tasks[id]? = some t' → t'.cluster = c →
      t'.position.stream? = some s → (∃ t : Task, w.tasks[id]? = some t ∧ t.cluster = c ∧
        t.position.Alike t'.position) ∨
      ∃ t : Task, w.tasks[id]? = some t ∧ t.cluster = c ∧ Stride setup id t w w' := by
    intro id t' s ht' hc hstream
    have cluster : ∀ {t : Task}, w.tasks[id]? = some t → t.cluster = c := fun ht => by
      obtain ⟨u, hu, huc, -⟩ := hlasts.task ht
      cases hu.symm.trans ht'
      exact huc.symm.trans hc
    exact (hhappens.stands ht' hstream).imp (fun ⟨t, ht, ha, _⟩ => ⟨t, ht, cluster ht, ha⟩)
      fun ⟨t, ht, hstride⟩ => ⟨t, ht, cluster ht, hstride⟩
  constructor
  case replies =>
    intro who load fields g hst hload
    rcases hcourse.replied hs hst with ⟨g', hold⟩ | rfl
    · exact h.replies hold hload
    · rw [hload]
      exact hstore.1
  case synced =>
    intro id t' fields ht' hc hr
    cases hstream : t'.position.stream? with
    | none =>
      rw [Position.reply?_of_stream? hstream] at hr
      cases hr
    | some s =>
      rcases tasks ht' hc hstream with ⟨t, ht, hct, ha⟩ | ⟨t, ht, hct, hstride⟩
      · exact h.synced ht hct (ha.reply ▸ hr)
      · exact (h.stride hstore ht hct hstride).1 ht' hr
  case calm =>
    intro id t' m e ht' hc hm he
    cases hstream : t'.position.stream? with
    | none =>
      rw [Position.message?_of_stream? hstream] at hm
      cases hm
    | some s =>
      rcases tasks ht' hc hstream with ⟨t, ht, hct, ha⟩ | ⟨t, ht, hct, hstride⟩
      · exact h.calm ht hct (ha.message m hm) he
      · exact (h.stride hstore ht hct hstride).2.1 ht' hm he
  case members =>
    intro hseat
    cases move_fills hs hp hm c with
    | kept hmembers hold =>
      rw [hmembers]
      exact h.members (hold hseat)
    | filled hst hload hmembers =>
      rw [hmembers, List.mem_eraseDups]
      exact h.replies hst hload
    | strode ht hct hstride => exact (h.stride hstore ht hct hstride).2.2 hseat

end Firm

/-! ## Lookups that are answered -/

/-- The cluster of the lookup that begins or goes on with a move. -/
def looksUp? (setup : Setup) (w : World) (m : Move) : Option String :=
  match w.begins? m with
  | some (_, b) => b.key?.bind setup.source.cluster?
  | none =>
    match m with
    | .step who => ((w.stage? who).bind Stage.load?).map Load.cluster
    | _ => none

theorem begin_answers {b : Action} {r : Answer}
    (h : w.begin setup who b = (v, .finished r))
    (hc : b.key?.bind setup.source.cluster? = some c) :
    (∃ f, r = .failed f) ∨ ∃ load : Load, load.cluster = c ∧ r = v.loadedAnswer load ∧
      v.cell c = .loaded := by
  have looked : ∀ {key : String} {view : Bool}, setup.source.cluster? key = some c →
      w.beginLoad setup who key view = (v, .finished r) → (∃ f, r = .failed f) ∨
      ∃ load : Load, load.cluster = c ∧ r = v.loadedAnswer load ∧ v.cell c = .loaded := by
    intro key view hkey h
    rcases beginLoad_cases h with ⟨f, hp⟩ | ⟨c', hkey', ⟨hp, hcell⟩ | hp | hp⟩
    · exact .inl ⟨f, Progress.finished.inj hp⟩
    · cases hkey.symm.trans hkey'
      exact .inr ⟨_, rfl, Progress.finished.inj hp, hcell⟩
    · cases hp
    · cases hp
  cases b with
  | lookup key => exact looked hc h
  | view key => exact looked hc h
  | _ => cases hc

theorem resume_answers {r : Answer} (hs : Supervised w)
    (h : w.resume setup who stage = some (v, .finished r))
    (hc : stage.load?.map Load.cluster = some c) :
    (∃ f, r = .failed f) ∨ ∃ load : Load, load.cluster = c ∧ r = v.loadedAnswer load ∧
      v.cell c = .loaded := by
  obtain ⟨load, hl, rfl⟩ := Option.map_eq_some_iff.1 hc
  by_cases hr : ∃ f, r = .failed f
  · exact .inl hr
  · obtain ⟨hanswer, hcell⟩ := (resume_proceeds hs hl h).succeeds fun f hf => hr ⟨f, hf⟩
    exact .inr ⟨load, rfl, hanswer, hcell⟩

/-- A lookup that is answered fails, or it shows what its cluster's cache holds. -/
theorem Answers.lookup {r : Answer} (h : w.Answers setup m r v) (hs : Supervised w)
    (hc : w.looksUp? setup m = some c) :
    (∃ f, r = .failed f) ∨ ∃ load : Load, load.cluster = c ∧ r = v.loadedAnswer load ∧
      v.cell c = .loaded := by
  cases h with
  | @asked id b r v h =>
    by_cases hnew : w.calls.contains id
    · simp [looksUp?, begins?, hnew] at hc
    · simp only [looksUp?, begins?, if_neg hnew] at hc
      exact begin_answers h hc
  | @called id stage r v hst h =>
    have hst' : w.stage? (.call id) = some stage := hst
    simp only [looksUp?, begins?, hst', Option.bind_some] at hc
    exact resume_answers hs h hc
  | @acted id s t pass l name label b more fault rest r v ht hcan hp h =>
    simp only [looksUp?, begins?, ht, Option.bind_some, Task.isEnded, hp, hcan,
      Position.action?] at hc
    exact begin_answers h hc
  | @resumed id s t pass l name label stage more fault rest r v ht hcan hp h =>
    simp only [looksUp?, begins?, ht, Option.bind_some, Task.isEnded, hp, hcan, Position.action?,
      stage?, Position.stage?] at hc
    exact resume_answers hs h hc

end World

namespace Fleet

variable {setups : Nat → Setup} {f f' g : Fleet} {i : Nat} {w v : World} {m : Move} {r : Answer}
  {c : String} {a : Address} {listed : Bool}

/-- The states of a run all along which the store is of a kind. -/
def Throughout (setups : Nat → Setup) (P : Memory → Prop) (f g : Fleet) : Prop :=
  P f.store ∧ Guarded setups (fun _ _ _ h => P h.store) f g

theorem Throughout.store {P : Memory → Prop} (h : Throughout setups P f g) : P g.store := by
  cases h.2 with
  | refl => exact h.1
  | move _ _ hp => exact hp

theorem firm_of_stable {store : Memory} {n : Nat} (hstore : store.channels.entries = [])
    (hr : Throughout setups ((setups i).Stable c a listed) (start store n) f)
    (hw : f.world? i = some w) : World.Firm c a listed w := by
  obtain ⟨hstart, hr⟩ := hr
  induction hr generalizing w with
  | refl =>
    rw [world?_start hw]
    exact .start store c a listed
  | @move g h j m past next _ ih =>
    have hg : Reachable setups g := ⟨store, n, hstore, past.reaches⟩
    have hstable : (setups i).Stable c a listed g.store := Throughout.store ⟨hstart, past⟩
    obtain ⟨u, u', hu, hm, -, hj, hothers⟩ := move_cases next
    by_cases hji : j = i
    · subst hji
      cases hj.symm.trans hw
      have hsup := (Streamed.of_reachable hg).supervised hu
      have hproper := (kept_of_reachable hg hu).2
      exact (ih hu).move hsup hproper (store_of_world? hu ▸ hstable) hm
    · rw [hothers i hji] at hw
      obtain ⟨x, hx, rfl⟩ := Option.map_eq_some_iff.1 hw
      exact (ih hx).store _

/-- An address that the hash of a cluster lists all along, by its canonical field
(`Memory.lists_of_text`) or in another spelling, while no message on the channel is about it, is a
member in every lookup of the cluster that succeeds. One that the hash never lists, while no message
is about it, is a member in none. -/
theorem stable_member {store : Memory} {n : Nat} (hstore : store.channels.entries = [])
    (hr : Throughout setups ((setups i).Stable c a listed) (start store n) f)
    (hw : f.world? i = some w) (hx : w.Answers (setups i) m r v)
    (hc : w.looksUp? (setups i) m = some c) (next : f.move setups i m = some g) :
    (∃ fault, r = .failed fault) ∨ ∃ as, r.found? = some as ∧ (a ∈ as ↔ listed = true) := by
  have hf : Reachable setups f := ⟨store, n, hstore, hr.2.reaches⟩
  have hsup := (Streamed.of_reachable hf).supervised hw
  rcases hx.lookup hsup hc with hfail | ⟨load, rfl, rfl, hcell⟩
  · exact .inl hfail
  · -- What is shown is what the cache holds after the move, and it is loaded then.
    obtain ⟨u, w', hu, hm, -⟩ := move_cases next
    cases hw.symm.trans hu
    obtain ⟨hcaches, -⟩ := hx.settles hm
    have hfirm := (firm_of_stable hstore hr hw).move hsup (kept_of_reachable hf hw).2
      (store_of_world? hw ▸ hr.store) hm
    have hmembers := hfirm.members (.inl (by rw [World.cell, hcaches]; exact hcell))
    rw [hcaches] at hmembers
    refine .inr ⟨Address.sort (v.caches.entry load.cluster).members, ?_, ?_⟩
    · unfold World.loadedAnswer
      dsimp only
      split <;> rfl
    · rw [Address.sort, List.mem_mergeSort]
      exact hmembers

/-- The hash lists one address and never another. The cluster is loaded, a third address is
announced, the stream is cut; and the next lookup shows the first and not the second. -/
theorem stable_member_disconnect :
    let here : Address := .v4 #v[10, 0, 0, 1] 8091
    let gone : Address := .v4 #v[10, 0, 0, 2] 8091
    let store := Memory.usual.put (registryKey "c") here.text "me@here"
    ∃ f w v r as, Reaches (fun _ => .mapped "me@here" "c") (start store 1) f ∧
      f.world? 0 = some w ∧ w.Answers (.mapped "me@here" "c") (.ask 3 (.lookup "k")) r v ∧
      r.found? = some as ∧ here ∈ as ∧ gone ∉ as := by
  intro here gone store
  obtain ⟨f, hf, hp⟩ := (Option.any_eq_true _ _).1 (show
    ((start store 1).runGuarded (fun _ => .mapped "me@here" "c")
      (fun _ _ _ h => Setup.Stable (.mapped "me@here" "c") "c" here true h.store ∧
        Setup.Stable (.mapped "me@here" "c") "c" gone false h.store)
      ((0, .ask 0 (.lookup "k")) :: List.replicate 2 (0, .step (.call 0)) ++
        List.replicate 5 (0, .step (.task 0)) ++ [(0, .step (.call 0)),
        (0, .ask 1 (.send "registry.redis.c" ["10.0.0.3:8091-REGISTER"]))] ++
        List.replicate 4 (0, .step (.task 0)) ++
        [(0, .ask 2 (.disconnect "registry.redis.c")), (0, .step (.task 0))])).any (fun f =>
      (f.world? 0).any fun w =>
        w.looksUp? (.mapped "me@here" "c") (.ask 3 (.lookup "k")) == some "c" &&
        (f.move (fun _ => .mapped "me@here" "c") 0 (.ask 3 (.lookup "k"))).isSome &&
        (((w.note (.asked 3 (.lookup "k"))).begin (.mapped "me@here" "c") (.call 3)
          (.lookup "k")).2.found?).isSome) = true by decide +kernel)
  simp only [Option.any_eq_true, Bool.and_eq_true, beq_iff_eq] at hp
  obtain ⟨w, hw, ⟨hc, hnext⟩, hp⟩ := hp
  obtain ⟨g, next⟩ := Option.isSome_iff_exists.1 hnext
  have hr := guarded_of_run hf
  obtain ⟨as, hp⟩ := Option.isSome_iff_exists.1 hp
  obtain ⟨r, hfinished, hfound⟩ := Progress.finished_of_found? hp
  have hx : w.Answers (.mapped "me@here" "c") (.ask 3 (.lookup "k")) r _ :=
    .asked (Prod.ext rfl hfinished)
  have shows : ∀ {a : Address} {listed : Bool},
      Throughout (fun _ => .mapped "me@here" "c")
        (Setup.Stable (.mapped "me@here" "c") "c" a listed) (start store 1) f →
          (a ∈ as ↔ listed = true) := by
    intro a listed h
    rcases stable_member rfl h hw hx hc next with ⟨fault, rfl⟩ | ⟨bs, hbs, hiff⟩
    · cases hfound
    · cases hfound.symm.trans hbs
      exact hiff
  refine ⟨f, w, _, r, as, hr.reaches, hw, hx, hfound, ?_, ?_⟩
  · exact (shows ⟨by decide, hr.mono fun _ _ _ _ h => h.1⟩).2 rfl
  · intro hmem
    have hlisted := (shows ⟨by decide, hr.mono fun _ _ _ _ h => h.2⟩).1 hmem
    cases hlisted

end Fleet

end Muster
