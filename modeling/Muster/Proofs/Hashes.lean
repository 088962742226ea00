import Muster.Membership
import Muster.Proofs.Codec
import Muster.Proofs.Streams

/-!
# What the store tells of a cluster

A hash lists addresses, and a channel tells of changes to the list. A change is in the air from the
moment it is made until it is announced. Each command to the store takes one of the steps of
`Airing`, and each of them keeps this: the list and the last event about an address agree, unless a
change of that address is in the air (`Tells`). So a set of addresses that was read from the hash
needs only the events that follow (`Agrees`).
-/
namespace Muster

namespace Table

variable {κ α : Type} [DecidableEq κ]

theorem contains_iff {t : Table κ α} {k : κ} :
    t.contains k = true ↔ ∃ v, (k, v) ∈ t.entries := by
  obtain ⟨es⟩ := t
  show (find? k es).isSome = true ↔ ∃ v, (k, v) ∈ es
  induction es with
  | nil => simp [find?]
  | cons p rest ih =>
    obtain ⟨k', v'⟩ := p
    by_cases h : k' = k
    · subst h
      simp [find?]
    · have h' : k ≠ k' := fun e => h e.symm
      simpa [find?, h, h'] using ih

end Table

/-- The event that an item tells of. -/
def Item.event? : Item → Option Event
  | .payload m => (Event.decode m).toOption
  | .disconnect => none

theorem Item.event?_encode {e : Event} (h : e.address.isPlain = true) :
    (Item.payload e.encode).event? = some e := by
  simp [event?, Event.decode_encode h, Except.toOption]

/-- The last event about an address. -/
def lastEvent? (es : List Event) (a : Address) : Option Event :=
  es.reverse.find? fun e => e.address = a

theorem lastEvent?_concat (es : List Event) (e : Event) (a : Address) :
    lastEvent? (es ++ [e]) a = if e.address = a then some e else lastEvent? es a := by
  simp only [lastEvent?, List.reverse_append, List.reverse_singleton, List.singleton_append,
    List.find?_cons]
  by_cases h : e.address = a <;> simp [h]

/-- An event is the last one about its address if none follows. -/
theorem lastEvent?_append {before after : List Event} {e : Event}
    (h : ∀ e' ∈ after, e'.address ≠ e.address) :
    lastEvent? (before ++ e :: after) e.address = some e := by
  have hafter : after.reverse.find? (fun e' => decide (e'.address = e.address)) = none := by
    simpa using h
  simp [lastEvent?, hafter]

theorem mem_addressesOf {fields : List (String × String)} {a : Address} :
    a ∈ addressesOf fields ↔ ∃ p ∈ fields, Address.ofText? p.1 = some a := by
  simp [addressesOf]

namespace Memory

variable {m m' : Memory} {key : String} {e : Event} {a : Address} {n : Nat}

/-- The hash of a key has a field that reads as this address. -/
def Lists (m : Memory) (key : String) (a : Address) : Prop := a ∈ addressesOf (m.hash key).entries

theorem lists_iff : m.Lists key a ↔
    ∃ field, (m.hash key).contains field = true ∧ Address.ofText? field = some a := by
  simp only [Lists, mem_addressesOf, Table.contains_iff, Prod.exists]
  constructor
  · rintro ⟨field, value, hmem, hread⟩
    exact ⟨field, ⟨value, hmem⟩, hread⟩
  · rintro ⟨field, ⟨value, hmem⟩, hread⟩
    exact ⟨field, value, hmem, hread⟩

/-- A field that can be read is spelled as its address is written. -/
def Canonical (m : Memory) : Prop :=
  ∀ key field a, (m.hash key).contains field = true → Address.ofText? field = some a →
    a.text = field

/-- The events sent on a channel from an index on. -/
def eventsFrom (m : Memory) (key : String) (n : Nat) : List Event :=
  ((m.log key).drop n).filterMap Item.event?

theorem eventsFrom_zero (m : Memory) (key : String) :
    m.eventsFrom key 0 = (m.log key).filterMap Item.event? := rfl

/-! ## Commands -/

/-- No hash is changed, and nothing is sent but the ends of streams. -/
structure Still (m m' : Memory) : Prop where
  hash : ∀ key, m'.hash key = m.hash key
  log : ∀ key, ∃ n, m'.log key = m.log key ++ List.replicate n .disconnect

namespace Still

theorem quiet (hh : m'.hashes = m.hashes) (hl : ∀ key, m'.log key = m.log key) : Still m m' :=
  ⟨fun key => by simp [Memory.hash, hh], fun key => ⟨0, by simp [hl key]⟩⟩

theorem refl (m : Memory) : Still m m := quiet rfl fun _ => rfl

theorem trans {a b c : Memory} (h : Still a b) (h' : Still b c) : Still a c := by
  refine ⟨fun key => (h'.hash key).trans (h.hash key), fun key => ?_⟩
  obtain ⟨n, hn⟩ := h.log key
  obtain ⟨n', hn'⟩ := h'.log key
  exact ⟨n + n', by rw [hn', hn, List.append_assoc, List.replicate_append_replicate]⟩

theorem close (m : Memory) (key : String) (s : Nat) : Still m (m.close key s) :=
  quiet rfl (close_spares m key s).log

theorem next {s : Nat} {r : Reading} (h : m.next key s = (r, m')) : Still m m' := by
  refine quiet ?_ (next_spares h).log
  unfold Memory.next at h
  split at h <;> cases h <;> rfl

theorem subscribe {s : Nat} (h : m.subscribe key = .ok (s, m')) : Still m m' := by
  obtain ⟨-, -, hspares, -⟩ := subscribe_spares h
  refine quiet ?_ hspares.log
  cases attempt_ok h
  rfl

theorem disconnect (m : Memory) (key : String) : Still m (m.disconnect key).2 := by
  refine ⟨fun _ => rfl, fun key' => ?_⟩
  by_cases hk : key = key'
  · subst hk
    cases hc : m.channels.get? key with
    | none => exact ⟨0, by simp [Memory.log, Memory.disconnect, Memory.send, hc]⟩
    | some c => exact ⟨1, by simp [Memory.log, Memory.disconnect, Memory.send, hc, Channel.send]⟩
  · exact ⟨0, by simp [Memory.log, Memory.disconnect, Memory.send, hk]⟩

theorem eventsFrom (h : Still m m') (key : String) {n : Nat} (hn : n ≤ (m.log key).length) :
    m'.eventsFrom key n = m.eventsFrom key n := by
  obtain ⟨k, hk⟩ := h.log key
  have hends : (List.replicate k Item.disconnect).filterMap Item.event? = [] := by
    simp [List.filterMap_eq_nil_iff, Item.event?]
  rw [Memory.eventsFrom, hk, List.drop_append_of_le_length hn, List.filterMap_append, hends,
    List.append_nil, Memory.eventsFrom]

theorem lists (h : Still m m') : m'.Lists key a ↔ m.Lists key a := by
  rw [Lists, Lists, h.hash]

end Still

/-- One address was put into a hash or taken out of it. -/
structure Wrote (key : String) (e : Event) (m m' : Memory) : Prop where
  hash : ∀ key' field, (m'.hash key').contains field =
    if key = key' ∧ field = e.address.text then decide (e.kind = .register)
    else (m.hash key').contains field
  log : ∀ key', m'.log key' = m.log key'

theorem hash_put (m : Memory) (key key' field value : String) :
    (m.put key field value).hash key' =
      if key = key' then (m.hash key).insert field value else m.hash key' := by
  simp only [hash, put, Table.get?_insert]
  split <;> rfl

theorem setField_wrote {value : String} (hk : e.kind = .register)
    (h : m.setField key e.address.text value = .ok m') : Wrote key e m m' := by
  cases attempt_ok h
  refine ⟨fun key' field => ?_, fun _ => rfl⟩
  rw [hash_put]
  by_cases hkey : key = key'
  · subst hkey
    by_cases hf : field = e.address.text
    · simp [hf, hk, Table.contains]
    · have hf' : e.address.text ≠ field := fun h => hf h.symm
      simp [hf, hf', Table.contains]
  · simp [hkey]

theorem deleteField_wrote {had : Bool} (hk : e.kind = .unregister)
    (h : m.deleteField key e.address.text = .ok (had, m')) : Wrote key e m m' := by
  cases attempt_ok h
  refine ⟨fun key' field => ?_, fun _ => rfl⟩
  by_cases hkey : key = key'
  · subst hkey
    by_cases hf : field = e.address.text
    · cases hh : m.hashes.get? key <;> simp [Memory.hash, hh, hf, hk, Table.contains]
    · have hf' : e.address.text ≠ field := fun h => hf h.symm
      cases hh : m.hashes.get? key <;> simp [Memory.hash, hh, hf, hf', Table.contains]
  · simp [Memory.hash, hkey]

namespace Wrote

theorem canonical (h : Wrote key e m m') (he : e.address.isPlain = true) (hm : m.Canonical) :
    m'.Canonical := by
  intro key' field a hfield hread
  rw [h.hash] at hfield
  split at hfield
  · next hat =>
    obtain ⟨rfl, rfl⟩ := hat
    rw [Address.ofText?_text he] at hread
    rw [Option.some.inj hread]
  · exact hm key' field a hfield hread

theorem lists_self (h : Wrote key e m m') (he : e.address.isPlain = true) (hm : m.Canonical) :
    m'.Lists key e.address ↔ e.kind = .register := by
  rw [lists_iff]
  constructor
  · rintro ⟨field, hfield, hread⟩
    have htext := h.canonical he hm key field e.address hfield hread
    rw [h.hash, if_pos ⟨rfl, htext.symm⟩] at hfield
    simpa using hfield
  · intro hk
    exact ⟨e.address.text, by rw [h.hash, if_pos ⟨rfl, rfl⟩]; simpa using hk,
      Address.ofText?_text he⟩

theorem lists_other (h : Wrote key e m m') (he : e.address.isPlain = true) {key' : String}
    (ha : key = key' → e.address ≠ a) : m'.Lists key' a ↔ m.Lists key' a := by
  have hfield : ∀ field, Address.ofText? field = some a →
      (m'.hash key').contains field = (m.hash key').contains field := by
    intro field hread
    rw [h.hash]
    refine if_neg ?_
    rintro ⟨hk, ht⟩
    refine ha hk ?_
    rw [ht, Address.ofText?_text he] at hread
    exact Option.some.inj hread
  rw [lists_iff, lists_iff]
  constructor
  · rintro ⟨field, hmem, hread⟩
    exact ⟨field, hfield field hread ▸ hmem, hread⟩
  · rintro ⟨field, hmem, hread⟩
    exact ⟨field, (hfield field hread).symm ▸ hmem, hread⟩

end Wrote

/-- An event was published. -/
def Announced (key : String) (e : Event) (m m' : Memory) : Prop :=
  ∃ n, m.publish key e.encode = .ok (n, m')

namespace Announced

theorem hash (h : Announced key e m m') (key' : String) : m'.hash key' = m.hash key' := by
  obtain ⟨n, h⟩ := h
  cases attempt_ok h
  rfl

theorem log_other (h : Announced key e m m') {key' : String} (hk : key ≠ key') :
    m'.log key' = m.log key' := by
  obtain ⟨n, h⟩ := h
  cases attempt_ok h
  simp [Memory.log, send, hk]

theorem log_self (h : Announced key e m m') (hc : (m.channels.get? key).isSome) :
    m'.log key = m.log key ++ [.payload e.encode] := by
  obtain ⟨n, h⟩ := h
  obtain ⟨c, hc⟩ := Option.isSome_iff_exists.1 hc
  cases attempt_ok h
  simp [Memory.log, send, hc, Channel.send]

/-- Nothing is sent on a channel without streams. -/
theorem log_none (h : Announced key e m m') (hc : m.channels.get? key = none) :
    m'.log key = [] := by
  obtain ⟨n, h⟩ := h
  cases attempt_ok h
  simp [Memory.log, send, hc]

end Announced

theorem isSome_of_position? {s : Nat} (h : m.position? key s = some n) :
    (m.channels.get? key).isSome := by
  unfold position? at h
  cases hc : m.channels.get? key with
  | none => simp [hc] at h
  | some c => rfl

theorem eventsFrom_of_log (h : m'.log key = m.log key) (n : Nat) :
    m'.eventsFrom key n = m.eventsFrom key n := by
  rw [eventsFrom, h, eventsFrom]

theorem eventsFrom_concat {i : Item} (h : m'.log key = m.log key ++ [i])
    (hi : i.event? = some e) (hn : n ≤ (m.log key).length) :
    m'.eventsFrom key n = m.eventsFrom key n ++ [e] := by
  rw [eventsFrom, h, List.drop_append_of_le_length hn, List.filterMap_append, eventsFrom]
  simp [hi]

theorem mem_eventsFrom_of_le {n' : Nat} (hn : n' ≤ n) (h : e ∈ m.eventsFrom key n) :
    e ∈ m.eventsFrom key n' :=
  ((List.drop_sublist_drop_left (m.log key) hn).filterMap _).subset h

/-! ## Changes in the air -/

/-- What one command does to the hash and the channel of a key, and to the changes of that key
which were made but not announced yet. -/
inductive Airing (key : String) (air air' : Event → Prop) (m m' : Memory) : Prop where
  | rests (hlist : ∀ a, m'.Lists key a ↔ m.Lists key a)
      (hlog : ∀ n, n ≤ (m.log key).length → m'.eventsFrom key n = m.eventsFrom key n)
      (hair : ∀ e, air' e ↔ air e)
  /-- An announcement on a channel without streams. -/
  | unheard (hlist : ∀ a, m'.Lists key a ↔ m.Lists key a) (hc : m.channels.get? key = none)
      (hlog : m'.log key = []) (hair : ∀ e, air' e → air e)
  | wrote {e : Event} (he : m'.Lists key e.address ↔ e.kind = .register)
      (hlist : ∀ a, e.address ≠ a → (m'.Lists key a ↔ m.Lists key a))
      (hlog : m'.log key = m.log key) (hair : ∀ e', air' e' ↔ air e' ∨ e' = e)
      (halone : ∀ e', air e' → e'.address ≠ e.address)
  | announced {e : Event} {i : Item} (hi : i.event? = some e) (he : air e)
      (hlist : ∀ a, m'.Lists key a ↔ m.Lists key a) (hlog : m'.log key = m.log key ++ [i])
      (hair : ∀ e', air' e' → air e') (hair' : ∀ e', air e' → air' e' ∨ e' = e)

/-- No change of the address is in the air. -/
def Settled (air : Event → Prop) (a : Address) : Prop := ∀ e, air e → e.address ≠ a

/-- The hash tells of each change in the air, and of the last event about every other address. -/
structure Tells (m : Memory) (key : String) (air : Event → Prop) : Prop where
  made : ∀ e, air e → (m.Lists key e.address ↔ e.kind = .register)
  last : ∀ a e, Settled air a → lastEvent? (m.eventsFrom key 0) a = some e →
    (m.Lists key a ↔ e.kind = .register)

/-- The addresses are those of the hash, up to changes that are in the air or will be read on the
channel from an index on. -/
def Agrees (m : Memory) (key : String) (air : Event → Prop) (n : Nat) (as : List Address) : Prop :=
  ∀ a, Settled air a → (∀ e ∈ m.eventsFrom key n, e.address ≠ a) → (a ∈ as ↔ m.Lists key a)

section
variable {air air' : Event → Prop} {as : List Address}

theorem Tells.airing (h : m.Tells key air) (hm : Airing key air air' m m') :
    m'.Tells key air' := by
  cases hm with
  | rests hlist hlog hair =>
    refine ⟨fun e he => ?_, fun a e ha he => ?_⟩
    · rw [hlist]
      exact h.made e ((hair e).1 he)
    · rw [hlist]
      rw [hlog 0 (Nat.zero_le _)] at he
      exact h.last a e (fun e' he' => ha e' ((hair e').2 he')) he
  | unheard hlist _ hlog hair =>
    refine ⟨fun e he => ?_, fun a e _ he => ?_⟩
    · rw [hlist]
      exact h.made e (hair e he)
    · simp [eventsFrom, hlog, lastEvent?] at he
  | @wrote e₀ he₀ hlist hlog hair halone =>
    refine ⟨fun e he => ?_, fun a e ha he => ?_⟩
    · rcases (hair e).1 he with he | rfl
      · rw [hlist e.address fun hsame => halone e he hsame.symm]
        exact h.made e he
      · exact he₀
    · rw [hlist a (ha e₀ ((hair e₀).2 (.inr rfl)))]
      rw [eventsFrom_of_log hlog] at he
      exact h.last a e (fun e' he' => ha e' ((hair e').2 (.inl he'))) he
  | @announced e₀ i hi he₀ hlist hlog hair hair' =>
    refine ⟨fun e he => ?_, fun a e ha he => ?_⟩
    · rw [hlist]
      exact h.made e (hair e he)
    · rw [hlist]
      rw [eventsFrom_concat hlog hi (Nat.zero_le _), lastEvent?_concat] at he
      split at he
      · next ha₀ =>
        cases he
        exact ha₀ ▸ h.made _ he₀
      · next ha₀ =>
        refine h.last a e (fun e' he' => ?_) he
        rcases hair' e' he' with he' | rfl
        · exact ha e' he'
        · exact ha₀

namespace Agrees

/-- What was read from the hash agrees with it. -/
theorem read (m : Memory) (key : String) (air : Event → Prop) (n : Nat) :
    m.Agrees key air n (addressesOf (m.hash key).entries) := fun _ _ _ => Iff.rfl

theorem of_le {n' : Nat} (h : m.Agrees key air n as) (hn : n' ≤ n) : m.Agrees key air n' as :=
  fun a ha hno => h a ha fun e he => hno e (mem_eventsFrom_of_le hn he)

theorem congr {as' : List Address} (h : m.Agrees key air n as) (ha : ∀ a, a ∈ as' ↔ a ∈ as) :
    m.Agrees key air n as' := fun a hs hno => (ha a).trans (h a hs hno)

/-- Whatever others do, addresses that agreed still do for one whose stream is behind. -/
theorem airing (h : m.Agrees key air n as) (hm : Airing key air air' m m')
    (hn : n ≤ (m.log key).length) (hc : (m.channels.get? key).isSome) :
    m'.Agrees key air' n as := by
  intro a ha hno
  cases hm with
  | rests hlist hlog hair =>
    rw [hlist]
    refine h a (fun e he => ha e ((hair e).2 he)) fun e he => hno e ?_
    rwa [hlog n hn]
  | unheard _ hnone => simp [hnone] at hc
  | @wrote e₀ he₀ hlist hlog hair halone =>
    rw [hlist a (ha e₀ ((hair e₀).2 (.inr rfl)))]
    refine h a (fun e he => ha e ((hair e).2 (.inl he))) fun e he => hno e ?_
    rwa [eventsFrom_of_log hlog]
  | @announced e₀ i hi he₀ hlist hlog hair hair' =>
    rw [eventsFrom_concat hlog hi hn] at hno
    rw [hlist]
    refine h a (fun e he => ?_) fun e he => hno e (by simp [he])
    rcases hair' e he with he | rfl
    · exact ha e he
    · exact hno e (by simp)

/-- An event that was read is applied. -/
theorem apply {α : Type} {c : Membership α} (h : m.Agrees key air n c.members)
    (ht : m.Tells key air) (hnodup : c.members.Nodup)
    (hitem : ((m.log key)[n]?).bind Item.event? = some e) :
    m.Agrees key air (n + 1) (c.apply e).members := by
  obtain ⟨i, hi, he⟩ := Option.bind_eq_some_iff.1 hitem
  have hdrop : (m.log key).drop n = i :: (m.log key).drop (n + 1) := by
    obtain ⟨hlt, rfl⟩ := List.getElem?_eq_some_iff.1 hi
    exact List.drop_eq_getElem_cons hlt
  have hevents : m.eventsFrom key n = e :: m.eventsFrom key (n + 1) := by
    rw [eventsFrom, hdrop, List.filterMap_cons, he]
    rfl
  intro a ha hno
  by_cases hae : e.address = a
  · -- The event is the last one about its address, so the hash has followed it.
    subst hae
    have hlast : lastEvent? (m.eventsFrom key 0) e.address = some e := by
      have hall : m.eventsFrom key 0 =
          ((m.log key).take n).filterMap Item.event? ++ e :: m.eventsFrom key (n + 1) := by
        rw [← hevents, eventsFrom_zero, eventsFrom, ← List.filterMap_append, List.take_append_drop]
      rw [hall]
      exact lastEvent?_append hno
    rw [ht.last e.address e ha hlast]
    unfold Membership.apply
    cases hk : e.kind with
    | register =>
      simp only [Membership.insertMember]
      split <;> simp_all
    | unregister => simp [hnodup.mem_erase_iff]
  · have hsame : a ∈ (c.apply e).members ↔ a ∈ c.members := by
      have hae' : a ≠ e.address := fun h => hae h.symm
      unfold Membership.apply
      cases hk : e.kind with
      | register =>
        simp only [Membership.insertMember]
        split <;> simp [hae']
      | unregister => simp [List.mem_erase_of_ne hae']
    rw [hsame]
    refine h a ha fun e' he' => ?_
    rw [hevents] at he'
    rcases List.mem_cons.1 he' with rfl | he'
    · exact hae
    · exact hno e' he'

end Agrees

end

end Memory

end Muster
