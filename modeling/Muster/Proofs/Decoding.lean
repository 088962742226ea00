import Muster.Proofs.Codec

/-!
# What a message decodes to

The outcomes of decoding, said without a reader (`Reading`): an event if the message is an address
in one of its spellings, a minus sign and a kind, and else the first of three complaints that
applies. A message has exactly one outcome, and it is what decoding gives (`decode_eq_iff`). No
spelling of an address has a minus sign, so that an accepted message splits in one way only.
-/
namespace Muster

namespace Address

open Text

variable {a : Address} {cs : List Char}

/-! ## Addresses have no minus sign -/

theorem Numeral.no_minus {radix n : Nat} (h : Numeral radix n cs)
    (hr : isDigit radix '-' = false) : '-' ∉ cs := by
  intro hm
  rw [h.digits _ hm] at hr
  cases hr

theorem Octet.no_minus {o : UInt8} (h : Octet o cs) : '-' ∉ cs :=
  h.toNumeral.no_minus (by decide)

theorem Group.no_minus {g : UInt16} (h : Group g cs) : '-' ∉ cs :=
  h.toNumeral.no_minus (by decide)

theorem Quad.no_minus {o : Octets} (h : Quad o cs) : '-' ∉ cs := by
  cases h with
  | octets ha hb hc hd => simp [ha.no_minus, hb.no_minus, hc.no_minus, hd.no_minus]

theorem Joined.no_minus {quad : Bool} {gs : List UInt16} (h : Joined quad gs cs) : '-' ∉ cs := by
  induction h with
  | one hg => exact hg.no_minus
  | quad hq _ => exact hq.no_minus
  | cons hg _ ih => simp [hg.no_minus, ih]

theorem Side.no_minus {quad : Bool} {gs : List UInt16} (h : Side quad gs cs) : '-' ∉ cs := by
  rcases h with ⟨-, rfl⟩ | h
  · simp
  · exact h.no_minus

theorem Host.no_minus {g : Groups} (h : Host g cs) : '-' ∉ cs := by
  cases h with
  | full hjoined => exact hjoined.no_minus
  | shortened hfront hback => simp [hfront.no_minus, hback.no_minus]

theorem Scope.no_minus {n : UInt32} (h : Scope n cs) : '-' ∉ cs := by
  cases h with
  | none => simp
  | some hn => simp [hn.no_minus (by decide)]

theorem Written.no_minus (h : Written a cs) : '-' ∉ cs := by
  cases h with
  | v4 hhost hport => simp [hhost.no_minus, hport.no_minus (by decide)]
  | v6 hhost hscope hport =>
    simp [hhost.no_minus, hscope.no_minus, hport.no_minus (by decide)]

end Address

namespace EventKind

theorem ofText?_eq_some_iff {s : String} {k : EventKind} : ofText? s = some k ↔ s = k.text := by
  constructor
  · intro h
    unfold ofText? at h
    split at h
    · next hs =>
      cases h
      exact hs
    · split at h
      · next hs =>
        cases h
        exact hs
      · cases h
  · rintro rfl
    cases k <;> decide

theorem ofText?_eq_none_iff {s : String} : ofText? s = none ↔ ∀ k : EventKind, s ≠ k.text := by
  simp only [Option.eq_none_iff_forall_ne_some, ne_eq, ofText?_eq_some_iff]

theorem text_no_minus (k : EventKind) : '-' ∉ k.text.toList := by
  cases k <;> decide

end EventKind

namespace Event

/-! ## Outcomes -/

theorem splitLast_eq_some {cs before after : List Char} (h : splitLast cs = some (before, after)) :
    cs = before ++ '-' :: after ∧ '-' ∉ after := by
  induction cs generalizing before with
  | nil => cases h
  | cons c cs ih =>
    unfold splitLast at h
    split at h
    · next hs =>
      cases h
      obtain ⟨hcs, hafter⟩ := ih hs
      exact ⟨by rw [hcs]; rfl, hafter⟩
    · next hs =>
      split at h
      · next hc =>
        cases h
        exact ⟨by rw [hc]; rfl, splitLast_eq_none_iff.1 hs⟩
      · cases h

/-- What may be wrong with a message, in the order in which it is looked for. -/
inductive Complaint where
  | separator
  | kind
  | address
deriving DecidableEq

/-- The fault that a complaint about a message is reported as. -/
def Complaint.fault (m : String) : Complaint → Fault
  | separator => .protocol ("missing separator in '" ++ m ++ "'")
  | kind => .protocol ("unknown event kind in '" ++ m ++ "'")
  | address => .protocol ("malformed address in '" ++ m ++ "'")

/-- The complaints about a message can be told apart. -/
theorem Complaint.eq_of_fault_eq {m : String} {c c' : Complaint} (h : c.fault m = c'.fault m) :
    c = c' := by
  -- The second letters of the three texts differ.
  have hsecond : ∀ t t' : String, Fault.protocol t = .protocol t' →
      t.toList[1]? = t'.toList[1]? := by
    rintro t t' ⟨⟩
    rfl
  cases c <;> cases c' <;> first | rfl | simpa using hsecond _ _ h

/-- What a message comes to. -/
inductive Reading (m : String) : Except Complaint Event → Prop
  | unsplit (h : '-' ∉ m.toList) : Reading m (.error .separator)
  | unkind {s t : String} (hm : m = s ++ "-" ++ t) (hlast : '-' ∉ t.toList)
    (hkind : ∀ k : EventKind, t ≠ k.text) : Reading m (.error .kind)
  | unread {s : String} {k : EventKind} (hm : m = s ++ "-" ++ k.text)
    (h : ∀ a : Address, ¬ a.Written s.toList) : Reading m (.error .address)
  | read {s : String} {e : Event} (hm : m = s ++ "-" ++ e.kind.text)
    (h : e.address.Written s.toList) : Reading m (.ok e)

variable {m : String} {c : Complaint} {e : Event}

/-- A message that splits at its last minus sign is decoded from both parts. -/
theorem decode_append {s t : String} (h : '-' ∉ t.toList) :
    decode (s ++ "-" ++ t) =
      match EventKind.ofText? t with
      | none => .error (Complaint.fault (s ++ "-" ++ t) .kind)
      | some k =>
        match Address.ofText? s with
        | none => .error (Complaint.fault (s ++ "-" ++ t) .address)
        | some a => .ok ⟨a, k⟩ := by
  have hsplit : splitLast (s ++ "-" ++ t).toList = some (s.toList, t.toList) := by
    rw [← splitLast_append h]
    simp
  simp only [decode, hsplit, String.ofList_toList]
  rfl

theorem Reading.decode_eq {r : Except Complaint Event} (h : Reading m r) :
    decode m = r.mapError (Complaint.fault m) := by
  cases h with
  | unsplit hm =>
    rw [decode, splitLast_eq_none_iff.2 hm]
    rfl
  | unkind hm hlast hkind =>
    subst hm
    rw [decode_append hlast, EventKind.ofText?_eq_none_iff.2 hkind]
    rfl
  | @unread s k hm h =>
    subst hm
    have hnone : Address.ofText? s = none := by
      rw [Option.eq_none_iff_forall_ne_some]
      exact fun a ha => h a (Address.ofText?_eq_some_iff.1 ha)
    rw [decode_append k.text_no_minus, EventKind.ofText?_eq_some_iff.2 rfl, hnone]
    rfl
  | @read s e hm h =>
    subst hm
    rw [decode_append e.kind.text_no_minus, EventKind.ofText?_eq_some_iff.2 rfl,
      Address.ofText?_eq_some_iff.2 h]
    rfl

theorem exists_reading (m : String) : ∃ r, Reading m r := by
  cases hs : splitLast m.toList with
  | none => exact ⟨_, .unsplit (splitLast_eq_none_iff.1 hs)⟩
  | some parts =>
    obtain ⟨before, after⟩ := parts
    obtain ⟨hcs, hlast⟩ := splitLast_eq_some hs
    obtain ⟨s, rfl⟩ : ∃ s : String, s.toList = before := ⟨_, String.toList_ofList⟩
    obtain ⟨t, rfl⟩ : ∃ t : String, t.toList = after := ⟨_, String.toList_ofList⟩
    have hm : m = s ++ "-" ++ t := String.toList_inj.1 (by rw [hcs]; simp)
    cases hk : EventKind.ofText? t with
    | none => exact ⟨_, .unkind hm hlast (EventKind.ofText?_eq_none_iff.1 hk)⟩
    | some k =>
      obtain rfl := EventKind.ofText?_eq_some_iff.1 hk
      cases ha : Address.ofText? s with
      | none =>
        refine ⟨_, .unread hm fun a hw => ?_⟩
        rw [Address.ofText?_eq_some_iff.2 hw] at ha
        cases ha
      | some a => exact ⟨_, @Reading.read m s ⟨a, k⟩ hm (Address.ofText?_eq_some_iff.1 ha)⟩

/-- A message is accepted as the events that it reads as. -/
theorem decode_ok_iff_reading : decode m = .ok e ↔ Reading m (.ok e) := by
  constructor
  · intro h
    obtain ⟨c | e', hr⟩ := exists_reading m
    · rw [hr.decode_eq] at h
      cases h
    · rw [hr.decode_eq] at h
      cases h
      exact hr
  · exact Reading.decode_eq

/-- A message is refused with the complaints that it reads as. -/
theorem decode_error_iff_reading {f : Fault} :
    decode m = .error f ↔ ∃ c : Complaint, f = c.fault m ∧ Reading m (.error c) := by
  constructor
  · intro h
    obtain ⟨c | e, hr⟩ := exists_reading m
    · rw [hr.decode_eq] at h
      cases h
      exact ⟨c, rfl, hr⟩
    · rw [hr.decode_eq] at h
      cases h
  · rintro ⟨c, rfl, hr⟩
    exact hr.decode_eq

theorem decode_fault_iff_reading :
    decode m = .error (c.fault m) ↔ Reading m (.error c) := by
  rw [decode_error_iff_reading]
  constructor
  · rintro ⟨c', hc, hr⟩
    exact Complaint.eq_of_fault_eq hc ▸ hr
  · exact fun hr => ⟨c, rfl, hr⟩

theorem decode_eq_ok_iff :
    decode m = .ok e ↔ ∃ s, m = s ++ "-" ++ e.kind.text ∧ e.address.Written s.toList := by
  rw [decode_ok_iff_reading]
  constructor
  · intro h
    cases h with
    | read hm hw => exact ⟨_, hm, hw⟩
  · rintro ⟨s, hm, hw⟩
    exact .read hm hw

/-- A message that is accepted has one minus sign. -/
theorem count_minus (h : decode m = .ok e) : m.toList.count '-' = 1 := by
  obtain ⟨s, rfl, hw⟩ := decode_eq_ok_iff.1 h
  simp [List.count_eq_zero_of_not_mem hw.no_minus,
    List.count_eq_zero_of_not_mem e.kind.text_no_minus]

/-- The event of a message that is accepted can be written and decoded again. -/
theorem decode_encode_of_decode (h : decode m = .ok e) : decode e.encode = .ok e := by
  obtain ⟨s, -, hw⟩ := decode_eq_ok_iff.1 h
  exact decode_encode hw.isPlain

/-- Decoding accepts the messages of the grammar, as the events that it says, and refuses all
others for the first reason that applies. What was accepted can be written and decoded again, and
two accepted messages say the same event if these writings agree. -/
theorem decode_accepts_grammar :
    (∀ s a, Address.ofText? s = some a ↔ a.Written s.toList) ∧
    (∀ m e, decode m = .ok e ↔ ∃ s, m = s ++ "-" ++ e.kind.text ∧ e.address.Written s.toList) ∧
    (∀ m e, decode m = .ok e → m.toList.count '-' = 1) ∧
    (∀ m f, decode m = .error f → ∃ c : Complaint, f = c.fault m) ∧
    (∀ m, decode m = .error (Complaint.separator.fault m) ↔ '-' ∉ m.toList) ∧
    (∀ m, decode m = .error (Complaint.kind.fault m) ↔
      ∃ s t, m = s ++ "-" ++ t ∧ '-' ∉ t.toList ∧ ∀ k : EventKind, t ≠ k.text) ∧
    (∀ m, decode m = .error (Complaint.address.fault m) ↔
      ∃ s, ∃ k : EventKind, m = s ++ "-" ++ k.text ∧ ∀ a : Address, ¬ a.Written s.toList) ∧
    (∀ m e, decode m = .ok e → decode e.encode = .ok e) ∧
    (∀ m m' e e', decode m = .ok e → decode m' = .ok e' →
      (decode m = decode m' ↔ e.encode = e'.encode)) := by
  refine ⟨fun _ _ => Address.ofText?_eq_some_iff, fun _ _ => decode_eq_ok_iff,
    fun _ _ => count_minus, fun m f h => ?_, fun m => ?_, fun m => ?_, fun m => ?_,
    fun _ _ => decode_encode_of_decode, fun m m' e e' h h' => ?_⟩
  · obtain ⟨c, hc, -⟩ := decode_error_iff_reading.1 h
    exact ⟨c, hc⟩
  · rw [decode_fault_iff_reading]
    refine ⟨fun h => ?_, .unsplit⟩
    cases h with
    | unsplit hm => exact hm
  · rw [decode_fault_iff_reading]
    constructor
    · intro h
      cases h with
      | unkind hm hlast hkind => exact ⟨_, _, hm, hlast, hkind⟩
    · rintro ⟨s, t, hm, hlast, hkind⟩
      exact .unkind hm hlast hkind
  · rw [decode_fault_iff_reading]
    constructor
    · intro h
      cases h with
      | unread hm hw => exact ⟨_, _, hm, hw⟩
    · rintro ⟨s, k, hm, hw⟩
      exact .unread hm hw
  · rw [h, h', Except.ok.injEq]
    refine ⟨fun heq => by rw [heq], fun heq => ?_⟩
    have hread := decode_encode_of_decode h
    rw [heq, decode_encode_of_decode h'] at hread
    exact (Except.ok.inj hread).symm

/-- A message in an unusual spelling and one in the canonical spelling say the same event. -/
theorem decode_accepts_grammar_spellings :
    decode "[0:00::FfFf:10.0.0.1%007]:08091-UNREGISTER" =
      .ok ⟨.v6 #v[0, 0, 0, 0, 0, 0xffff, 0x0a00, 1] 8091 0 7, .unregister⟩ ∧
    "[0:00::FfFf:10.0.0.1%007]:08091-UNREGISTER".toList.count '-' = 1 ∧
    decode "[0:00::FfFf:10.0.0.1%007]:08091-UNREGISTER" =
      decode "[::ffff:10.0.0.1%7]:8091-UNREGISTER" := by
  have hodd : decode "[0:00::FfFf:10.0.0.1%007]:08091-UNREGISTER" =
      .ok ⟨.v6 #v[0, 0, 0, 0, 0, 0xffff, 0x0a00, 1] 8091 0 7, .unregister⟩ := by rfl
  have hplain : decode "[::ffff:10.0.0.1%7]:8091-UNREGISTER" =
      .ok ⟨.v6 #v[0, 0, 0, 0, 0, 0xffff, 0x0a00, 1] 8091 0 7, .unregister⟩ := by rfl
  obtain ⟨-, -, hcount, -, -, -, -, -, hsame⟩ := decode_accepts_grammar
  exact ⟨hodd, hcount _ _ hodd, (hsame _ _ _ _ hodd hplain).2 rfl⟩

end Event

end Muster
