import Muster.Proofs.Accounts

/-!
# Disconnected streams

A disconnect is a marker among the items, and a stream that reads it ends. A stream that has not
come so far yields what was sent before, unless it lags: it is then moved past the marker like past
any other item that is no longer kept, and yields what is sent after, as if nothing had happened.
That takes as many further items as the channel keeps, and there is no other way past the marker
(`Cut`).
-/
namespace Muster

namespace Channel

variable {kept n place : Nat} {items : List Item} {rs rs' : List Reading} {s : Nat} {t t₁ : Track}
  {h rest : List Entry}

namespace Yields

/-- Reading goes on from where the first readings have led. -/
theorem after (h : Yields kept items (rs ++ rs')) : Yields kept (items.drop (passed rs)) rs' := by
  induction rs generalizing items with
  | nil => exact h
  | cons r rs ih =>
    cases h with
    | pending rest => simpa using ih rest
    | message rest => simpa using ih rest
    | lagged _ _ rest => simpa using ih rest

/-- Behind what a lag leaves out there is as much as is kept. -/
theorem lagged_room (h : Yields kept items (rs ++ .lagged n :: rs')) :
    passed rs + n + kept ≤ items.length := by
  have hrest := h.after
  generalize hitems : items.drop (passed rs) = left at hrest
  cases hrest with
  | @lagged lost items' _ hany hfull _ =>
    have hlen := congrArg List.length hitems
    have hlost := List.length_pos_iff.2 hany
    simp only [List.length_drop, List.length_append] at hlen
    omega

/-- A marker is not read: whoever is past it lagged over it. -/
theorem overran (h : Yields kept items rs) (hplace : items[place]? = some .disconnect)
    (hpast : place < passed rs) :
    ∃ rs₁ n rs₂, rs = rs₁ ++ .lagged n :: rs₂ ∧ passed rs₁ ≤ place ∧ place < passed rs₁ + n := by
  induction h generalizing place with
  | nil => simp at hpast
  | pending _ ih =>
    obtain ⟨rs₁, n, rs₂, rfl, hle, hlt⟩ := ih hplace (by simpa using hpast)
    exact ⟨.pending :: rs₁, n, rs₂, rfl, by simpa using hle, by simpa using hlt⟩
  | @message m _ _ _ ih =>
    cases place with
    | zero => simp at hplace
    | succ place =>
      obtain ⟨rs₁, n, rs₂, rfl, hle, hlt⟩ := ih (by simpa using hplace) (by simpa using hpast)
      refine ⟨.message m :: rs₁, n, rs₂, rfl, ?_, ?_⟩
      all_goals
        rw [passed_message]
        omega
  | @lagged lost _ rs _ _ _ ih =>
    by_cases hin : place < lost.length
    · exact ⟨[], lost.length, rs, rfl, Nat.zero_le _, by simpa using hin⟩
    · rw [List.getElem?_append_right (by omega)] at hplace
      rw [passed_lagged] at hpast
      obtain ⟨rs₁, n, rs₂, rfl, hle, hlt⟩ := ih hplace (by omega)
      refine ⟨.lagged lost.length :: rs₁, n, rs₂, rfl, ?_, ?_⟩
      all_goals
        rw [passed_lagged]
        omega

end Yields

/-- The stream was told of a lag that ran over the item at this place. -/
def Track.Overran (t : Track) (place : Nat) : Prop :=
  ∃ rs n rs', t.readings = rs ++ .lagged n :: rs' ∧ passed rs ≤ place ∧ place < passed rs + n

theorem Track.overran_iff (h : Yields kept t.items t.readings)
    (hplace : t.items[place]? = some .disconnect) :
    t.Overran place ↔ place < passed t.readings := by
  refine ⟨?_, h.overran hplace⟩
  rintro ⟨rs, n, rs', hreadings, -, hlt⟩
  rw [hreadings, passed_append, passed_lagged]
  omega

theorem Track.Overran.room (ho : t.Overran place) (h : Yields kept t.items t.readings) :
    place + kept < t.items.length := by
  obtain ⟨rs, n, rs', hreadings, -, hlt⟩ := ho
  have hroom := (hreadings ▸ h).lagged_room
  omega

/-- A message is the item at which the stream stands. -/
theorem Track.upcoming_message {text : String} (h : t.upcoming kept = .message text) :
    t.items[passed t.readings]? = some (.payload text) := by
  unfold Track.upcoming at h
  split at h
  · cases h
  · cases hi : t.items[passed t.readings]? with
    | none => simp [hi, Reading.ofItem?] at h
    | some i => cases i <;> simp_all [Reading.ofItem?]

/-! ## A stream from one moment to a later one -/

/-- No stream is opened twice. -/
theorem Lives.joined_once {c : Channel} (hl : Lives kept h c) (s : Nat) :
    h.count (.joined s) ≤ 1 := by
  induction hl with
  | new => exact Nat.zero_le _
  | @joined h _ _ s' hnew ih =>
    rw [List.count_append]
    by_cases hs : s' = s
    · subst hs
      simp [List.count_eq_zero.2 hnew]
    · simpa [hs] using ih
  | _ => simpa [List.count_append] using ‹_ ≤ 1›

/-- A stream that is open was not opened again. -/
theorem Lives.joined_before {c : Channel} (hl : Lives kept (h ++ rest) c)
    (hopen : track? s h = some t) : .joined s ∉ rest := by
  have hmem : .joined s ∈ h := by
    by_contra hnone
    rw [track?_eq_none hnone] at hopen
    cases hopen
  have hcount := hl.joined_once s
  have hpos := List.count_pos_iff.2 hmem
  rw [List.count_append] at hcount
  exact List.count_eq_zero.1 (by omega)

/-- A stream that stays open goes on with more items and more readings. -/
theorem track?_extends (hopen : track? s h = some t₁) (hrest : .joined s ∉ rest)
    (ht : track? s (h ++ rest) = some t) : t.items = t₁.items ++ rest.filterMap Entry.item? ∧
      t.readings = t₁.readings ++ rest.filterMap (Entry.reading? s) := by
  induction rest using List.reverseRecOn generalizing t with
  | nil =>
    rw [List.append_nil, hopen] at ht
    cases ht
    simp
  | append_singleton rest e ih =>
    obtain ⟨hbefore, hlast⟩ : .joined s ∉ rest ∧ .joined s ≠ e := by simpa using hrest
    rw [← List.append_assoc, track?_append] at ht
    rcases Track.follow_eq_some ht with ⟨he, -⟩ | ⟨-, u, hu, hitems, hreadings⟩
    · exact absurd he.symm hlast
    · obtain ⟨hi, hr⟩ := ih hbefore hu
      rw [hitems, hreadings, hi, hr, filterMap_concat, filterMap_concat]
      simp

end Channel

namespace Memory

open Channel

/-- What becomes of an open stream that has a marker at this place before it or behind it. -/
structure Cut (m : Memory) (kept : Nat) (key : String) (s marker : Nat) (t : Track) : Prop where
  marked : t.items[marker]? = some .disconnect
  /-- The stream yields what was sent before the marker, unless it has lagged over that. -/
  yields : ∀ text, (m.next key s).1 = .message text →
    t.items[passed t.readings]? = some (.payload text) ∧
      (passed t.readings < marker ∨ t.Overran marker)
  overran_iff : t.Overran marker ↔ marker < passed t.readings
  /-- That takes as many further items as are kept. -/
  room : t.Overran marker → marker + kept < t.items.length
  ends : passed t.readings = marker → t.items.length ≤ marker + kept → (m.next key s).1 = .ended

theorem Accounted.cut {m : Memory} {kept : Nat} {key : String} {h : List Entry} {s marker : Nat}
    {t : Track} (ha : Accounted m kept key h s t) (hmark : t.items[marker]? = some .disconnect) :
    Cut m kept key s marker t := by
  have hover := Track.overran_iff ha.yields hmark
  refine ⟨hmark, fun text hnext => ?_, hover, fun ho => ho.room ha.yields, fun hat hroom => ?_⟩
  · have hitem := Track.upcoming_message (ha.next ▸ hnext)
    refine ⟨hitem, ?_⟩
    rcases Nat.lt_trichotomy (passed t.readings) marker with hlt | heq | hgt
    · exact .inl hlt
    · rw [heq, hmark] at hitem
      cases hitem
    · exact .inr (hover.2 hgt)
  · have hunread : t.unread = t.items.length - passed t.readings := rfl
    rw [ha.next, Track.upcoming, if_neg (by omega), hat, hmark]
    rfl

/-- A stream that is open at a disconnect is ended by it, at once or when it has read what was sent
before, or it lags over the marker. -/
theorem disconnect_cuts {capacity : Nat} {before after : List Command} {key : String} {s : Nat}
    {h₁ h : List (String × Entry)} {m₁ m : Memory} {t₁ : Track}
    (hbefore : (new capacity).play before = (h₁, m₁))
    (hopen : track? s (onKey key h₁) = some t₁)
    (hplay : (new capacity).play (before ++ .disconnect key :: after) = (h, m)) :
    (∀ t, track? s (onKey key h) = some t →
      Cut m (max capacity 1).nextPowerOfTwo key s t₁.items.length t) ∧
    (track? s (onKey key h) = none → (m.next key s).1 = .ended) := by
  have hr := (Recorded.new capacity).play (before ++ .disconnect key :: after)
  rw [List.nil_append, hplay] at hr
  obtain ⟨h₂, rfl⟩ : ∃ h₂, h = h₁ ++ (key, .sent .disconnect) :: h₂ := by
    rw [play_append, hbefore] at hplay
    exact ⟨_, (Prod.mk.inj hplay).1.symm⟩
  have hsplit : onKey key (h₁ ++ (key, .sent .disconnect) :: h₂) =
      onKey key h₁ ++ .sent .disconnect :: onKey key h₂ := by simp [onKey]
  have hlives := hr.lives key
  refine ⟨fun t ht => (hr.accounted ht).cut ?_, fun hclosed => ?_⟩
  · rw [hsplit] at ht hlives
    -- The marker is the first item after those that had been sent by then.
    rw [(track?_extends hopen (hlives.joined_before hopen) ht).1]
    simp [Entry.item?]
  · rw [(next_channel m key s).1, Channel.next, hlives.agrees.closed hclosed]

/-- The stream has read the message that was sent before, and ends although another one follows. -/
theorem disconnect_cuts_kept :
    let before : List Command := [.subscribe "ch", .publish "ch" "a"]
    let after : List Command := [.next "ch" 0, .publish "ch" "b"]
    let played := (new 2).play (before ++ .disconnect "ch" :: after)
    ∃ t, track? 0 (onKey "ch" played.1) = some t ∧ t.items.length = 3 ∧
      Cut played.2 2 "ch" 0 1 t ∧ (played.2.next "ch" 0).1 = .ended := by
  intro before after played
  have hkept : (max 2 1).nextPowerOfTwo = 2 := by decide +kernel
  have hopen : track? 0 (onKey "ch" ((new 2).play before).1) = some ⟨[.payload "a"], []⟩ := by
    decide +kernel
  have hplay : (new 2).play (before ++ .disconnect "ch" :: after) = (played.1, played.2) := rfl
  have ht : track? 0 (onKey "ch" played.1) =
      some ⟨[.payload "a", .disconnect, .payload "b"], [.message "a"]⟩ := by decide +kernel
  have hcut := (disconnect_cuts rfl hopen hplay).1 _ ht
  rw [hkept] at hcut
  exact ⟨_, ht, rfl, hcut, hcut.ends rfl (by decide)⟩

/-- A channel that keeps one item keeps no marker beside a message: the stream goes on with what was
sent after the disconnect. -/
theorem disconnect_overrun :
    let before : List Command := [.subscribe "ch"]
    let cut := (new 1).play (before ++ [.disconnect "ch"])
    let played := (new 1).play (before ++ .disconnect "ch" :: [.publish "ch" "later", .next "ch" 0])
    0 ∈ openStreams (onKey "ch" ((new 1).play before).1) ∧
      .sent (.payload "later") ∉ onKey "ch" cut.1 ∧
      (played.2.next "ch" 0).1 = .message "later" := by
  decide +kernel

end Memory

end Muster
