import Muster.Proofs.Changes
import Muster.Proofs.Rosters
import Mathlib.Data.List.Nodup

/-!
# Addresses and the fields of their hash

The text of an address is the field that stands for it. The text leaves out the flow label, so two
addresses share a field exactly if they differ in nothing else (`text_eq_iff`). Addresses that were
read or are a port on a host have none; sets of these have one field for each member.
-/
namespace Muster

namespace Address

variable {a b : Address}

/-- The addresses are two IPv6 addresses that differ in their flow labels only. -/
inductive Relabelled : Address → Address → Prop
  | v6 (g : Groups) (p : UInt16) (n : UInt32) {f f' : UInt32} (h : f ≠ f') :
    Relabelled (.v6 g p f n) (.v6 g p f' n)

theorem Relabelled.ne (h : Relabelled a b) : a ≠ b := by
  cases h with
  | v6 g p n hf => simpa using hf

theorem Relabelled.plain_eq (h : Relabelled a b) : a.plain = b.plain := by
  cases h
  rfl

theorem plain_eq_iff : a.plain = b.plain ↔ a = b ∨ Relabelled a b := by
  constructor
  · intro h
    cases a with
    | v4 o p =>
      cases b with
      | v4 o' p' => exact .inl h
      | v6 => cases h
    | v6 g p f n =>
      cases b with
      | v4 => cases h
      | v6 g' p' f' n' =>
        obtain ⟨rfl, rfl, -, rfl⟩ := Address.v6.inj h
        by_cases hf : f = f'
        · exact .inl (by rw [hf])
        · exact .inr (.v6 _ _ _ hf)
  · rintro (rfl | h)
    · rfl
    · exact h.plain_eq

/-- Two addresses have one text if they are equal up to the flow label. -/
theorem text_eq_iff : a.text = b.text ↔ a = b ∨ Relabelled a b := by
  rw [← plain_eq_iff]
  exact ⟨plain_congr, fun h => by rw [← text_plain a, h, text_plain]⟩

theorem Made.not_relabelled (ha : a.Made) (hb : b.Made) : ¬ Relabelled a b := fun h =>
  h.ne <| by
    rw [← plain_of_isPlain (made_iff_isPlain.1 ha), h.plain_eq,
      plain_of_isPlain (made_iff_isPlain.1 hb)]

/-- Addresses that come about have one text only if they are equal. -/
theorem Made.eq_of_text_eq (ha : a.Made) (hb : b.Made) (h : a.text = b.text) : a = b :=
  (text_eq_iff.1 h).resolve_right (ha.not_relabelled hb)

end Address

namespace Membership

/-- The addresses that an edit brings in or takes out. -/
def Edit.addresses : Edit → List Address
  | apply e => [e.address]
  | replace as => as

theorem lists_mentions {h : List Edit} {a : Address} (hl : Lists h a) :
    ∃ x ∈ h, a ∈ x.addresses := by
  induction h using List.reverseRecOn with
  | nil => simp [Lists, lastEvent?] at hl
  | append_singleton h x ih =>
    cases x with
    | apply e =>
      rw [lists_apply] at hl
      by_cases ha : e.address = a
      · exact ⟨.apply e, by simp, by simp [Edit.addresses, ha]⟩
      · obtain ⟨x, hx, hax⟩ := ih (by rwa [if_neg ha] at hl)
        exact ⟨x, List.mem_append_left _ hx, hax⟩
    | replace as =>
      rw [lists_replace] at hl
      exact ⟨.replace as, by simp, hl⟩

end Membership

namespace Address

/-- An address is told by its text, except for the flow label: equality and equality of texts
disagree exactly on addresses that differ in it alone, and a field reads as the address without it.
Addresses that come about have no flow label, so that they are equal exactly if their texts are; and
the members of a set that only such addresses were put into have a field each. -/
theorem equal_by_text {α : Type} (a b : Address) :
    (¬ (a = b ↔ a.text = b.text) ↔ Relabelled a b) ∧
    ofText? a.text = some a.plain ∧
    (a.Made → b.Made → (a = b ↔ a.text = b.text)) ∧
    ∀ h : List Membership.Edit, (∀ x ∈ h, ∀ c ∈ x.addresses, c.Made) →
      ((({} : Membership α).edits h).members.map text).Nodup := by
  refine ⟨⟨fun hne => ?_, fun hr heq => ?_⟩, ofText?_text_plain a, fun ha hb => ?_,
    fun h hmade => ?_⟩
  · rw [text_eq_iff] at hne
    by_contra hr
    exact hne ⟨.inl, fun h => h.resolve_right hr⟩
  · exact hr.ne (heq.2 (text_eq_iff.2 (.inr hr)))
  · exact ⟨congrArg text, ha.eq_of_text_eq hb⟩
  · have hcame : ∀ c ∈ (({} : Membership α).edits h).members, c.Made := fun c hc => by
      obtain ⟨x, hx, hcx⟩ := Membership.lists_mentions ((Membership.mem_edits h c).1 hc)
      exact hmade x hx c hcx
    exact List.Nodup.map_on (fun c hc d hd => (hcame c hc).eq_of_text_eq (hcame d hd))
      (Membership.nodup_edits h)

/-- One port on one host, with and without a scope. -/
theorem equal_by_text_scoped :
    let a : Address := .v6 #v[0, 0, 0, 0, 0, 0, 0, 1] 80 0 0
    let b : Address := .v6 #v[0, 0, 0, 0, 0, 0, 0, 1] 80 0 1
    a.Made ∧ b.Made ∧ a.text ≠ b.text ∧
    ((({} : Membership Unit).edits
      [.replace [a, b], .apply (.register a), .apply (.register b)]).members.map text).Nodup := by
  intro a b
  have ha : a.Made := made_iff_isPlain.2 rfl
  have hb : b.Made := made_iff_isPlain.2 rfl
  obtain ⟨-, -, heq, hset⟩ := equal_by_text (α := Unit) a b
  refine ⟨ha, hb, fun htext => absurd ((heq ha hb).2 htext) (by decide), hset _ ?_⟩
  intro x hx c hc
  have hmade : c = a ∨ c = b := by
    simp only [List.mem_cons, List.not_mem_nil, or_false] at hx
    rcases hx with rfl | rfl | rfl
    · simpa [Membership.Edit.addresses] using hc
    · exact .inl (List.mem_singleton.1 hc)
    · exact .inr (List.mem_singleton.1 hc)
  rcases hmade with rfl | rfl
  · exact ha
  · exact hb

/-- Two addresses that differ in their flow labels: they are not equal, but have one text, and as
members of one set they share a field. -/
theorem one_text_two_flows :
    let a : Address := .v6 #v[0, 0, 0, 0, 0, 0, 0, 1] 80 0 0
    let b : Address := .v6 #v[0, 0, 0, 0, 0, 0, 0, 1] 80 1 0
    ¬ (a = b ↔ a.text = b.text) ∧
    (({} : Membership Unit).edits [.apply (.register a), .apply (.register b)]).members = [a, b] ∧
    a.text = "[::1]:80" ∧ b.text = "[::1]:80" := by
  intro a b
  have hne : a ≠ b := by decide
  have htext : a.text = b.text := rfl
  exact ⟨fun h => hne (h.2 htext), by decide, by decide, by decide⟩

end Address

end Muster
