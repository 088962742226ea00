import Muster.Event

/-!
# How addresses may be spelled

The grammar of addresses, said without a reader (`Written`): which texts write an address, in any of
its spellings. The reader takes a text exactly if the grammar has it, and then reads the address that
the grammar says (`ofText?_eq_some_iff`). The groups of an IPv6 host need most care, since the reader
takes as many as it can before it looks for the double colon.
-/
namespace Muster

namespace Address

open Text

/-! ## The grammar -/

/-- Digits that write a number, with any number of leading zeros. -/
structure Numeral (radix n : Nat) (cs : List Char) : Prop where
  any : cs ≠ []
  digits : ∀ c ∈ cs, isDigit radix c = true
  value : digitsValue radix cs = n

/-- One to three decimal digits without a leading zero. -/
structure Octet (o : UInt8) (cs : List Char) : Prop extends Numeral 10 o.toNat cs where
  short : cs.length ≤ 3
  plain : cs.length = 1 ∨ cs.head? ≠ some '0'

/-- One to four hexadecimal digits, in either case. -/
structure Group (g : UInt16) (cs : List Char) : Prop extends Numeral 16 g.toNat cs where
  short : cs.length ≤ 4

/-- Four octets, between dots. -/
inductive Quad : Octets → List Char → Prop
  | octets {a b c d : UInt8} {as bs cs ds : List Char} (ha : Octet a as) (hb : Octet b bs)
    (hc : Octet c cs) (hd : Octet d ds) :
    Quad #v[a, b, c, d] (as ++ '.' :: (bs ++ '.' :: (cs ++ '.' :: ds)))

/-- At least one group, between colons. Four octets may stand for the last two if `quad` allows. -/
inductive Joined (quad : Bool) : List UInt16 → List Char → Prop
  | one {g : UInt16} {cs : List Char} (h : Group g cs) : Joined quad [g] cs
  | quad {a b c d : UInt8} {cs : List Char} (h : Quad #v[a, b, c, d] cs) (allowed : quad = true) :
    Joined quad [Parser.pair a b, Parser.pair c d] cs
  | cons {g : UInt16} {gs : List UInt16} {cs ds : List Char} (h : Group g cs)
    (rest : Joined quad gs ds) : Joined quad (g :: gs) (cs ++ ':' :: ds)

/-- Groups on one side of a double colon: there may be none. -/
def Side (quad : Bool) (gs : List UInt16) (cs : List Char) : Prop :=
  gs = [] ∧ cs = [] ∨ Joined quad gs cs

/-- Eight groups, or fewer with a double colon in place of at least one zero group. -/
inductive Host : Groups → List Char → Prop
  | full {g : Groups} {cs : List Char} (h : Joined true g.toList cs) : Host g cs
  | shortened {g : Groups} {front back : List UInt16} {zeros : Nat} {cs ds : List Char}
    (hfront : Side false front cs) (hback : Side true back ds) (hzeros : 0 < zeros)
    (hg : g.toList = front ++ List.replicate zeros 0 ++ back) : Host g (cs ++ ':' :: ':' :: ds)

/-- A percent sign and decimal digits, or nothing for the scope zero. -/
inductive Scope : UInt32 → List Char → Prop
  | none : Scope 0 []
  | some {n : UInt32} {cs : List Char} (h : Numeral 10 n.toNat cs) : Scope n ('%' :: cs)

/-- The texts of an address: its host, IPv6 in brackets and with its scope, and its port after a
colon. -/
inductive Written : Address → List Char → Prop
  | v4 {o : Octets} {p : UInt16} {cs ds : List Char} (host : Quad o cs)
    (port : Numeral 10 p.toNat ds) : Written (.v4 o p) (cs ++ ':' :: ds)
  | v6 {g : Groups} {p : UInt16} {n : UInt32} {cs zs ds : List Char} (host : Host g cs)
    (scope : Scope n zs) (port : Numeral 10 p.toNat ds) :
    Written (.v6 g p 0 n) ('[' :: (cs ++ (zs ++ ']' :: ':' :: ds)))

theorem Joined.mono {quad : Bool} {gs : List UInt16} {cs : List Char} (h : Joined quad gs cs) :
    Joined true gs cs := by
  induction h with
  | one hg => exact .one hg
  | quad hq _ => exact .quad hq rfl
  | cons hg _ ih => exact .cons hg ih

namespace Parser

/-! ## What may follow -/

/-- What follows is no digit of this radix. -/
def Stops (radix : Nat) (rest : List Char) : Prop :=
  ∀ c, rest.head? = some c → isDigit radix c = false

theorem Stops.nil {radix : Nat} : Stops radix [] := fun _ h => by cases h

theorem Stops.cons {radix : Nat} {c : Char} {rest : List Char} (h : isDigit radix c = false) :
    Stops radix (c :: rest) := fun _ hd => by cases hd; exact h

theorem Stops.dropWhile {radix : Nat} {rest : List Char} (h : Stops radix rest) :
    rest.takeWhile (isDigit radix) = [] ∧ rest.dropWhile (isDigit radix) = rest := by
  cases rest with
  | nil => exact ⟨rfl, rfl⟩
  | cons c rest => simp [h c rfl]

theorem isDigit_of_decimal {c : Char} (h : isDigit 10 c = true) : isDigit 16 c = true := by
  unfold isDigit digit? at h ⊢
  generalize (if '0' ≤ c ∧ c ≤ '9' then _ else _ : Option Nat) = v at h
  cases v with
  | none => cases h
  | some v =>
    have hv : v < 10 := by simpa [Option.filter] using h
    simp [Option.filter, show v < 16 by omega]

theorem Stops.mono {rest : List Char} (h : Stops 16 rest) : Stops 10 rest := by
  intro c hc
  cases hd : isDigit 10 c with
  | false => rfl
  | true => rw [← h c hc, isDigit_of_decimal hd]

/-- No group, and no last part as an IPv4 address, follows. -/
structure Ends (rest : List Char) : Prop where
  stops : Stops 16 rest
  dot : rest.head? ≠ some '.'
  colon : ∀ more, rest = ':' :: more → Stops 16 more

variable {radix n bound : Nat} {cs ds rest : List Char}

/-! ## Numbers -/

theorem takeWhile_append_stops (hd : ∀ c ∈ ds, isDigit radix c = true) (hrest : Stops radix rest) :
    (ds ++ rest).takeWhile (isDigit radix) = ds ∧ (ds ++ rest).dropWhile (isDigit radix) = rest := by
  rw [List.takeWhile_append_of_pos hd, List.dropWhile_append_of_pos hd, hrest.dropWhile.1,
    hrest.dropWhile.2, List.append_nil]
  exact ⟨rfl, rfl⟩

theorem stops_dropWhile (radix : Nat) (cs : List Char) :
    Stops radix (cs.dropWhile (isDigit radix)) := by
  intro c hc
  have := List.head?_dropWhile_not (isDigit radix) cs
  simpa [hc] using this

/-- Nothing is read where no digit stands. -/
theorem number_of_stops {most : Option Nat} {zeros : Bool} (h : Stops radix rest) :
    number radix most zeros bound rest = none := by
  simp [number, h.dropWhile.1]

theorem octets_of_stops (h : Stops 10 rest) : octets rest = none := by
  simp [octets, octet, number_of_stops h]

theorem group_of_stops (h : Stops 16 rest) : group rest = none := by
  simp [group, number_of_stops h]

theorem char_eq_some_iff {c : Char} : char c cs = some rest ↔ cs = c :: rest := by
  cases cs with
  | nil => simp [char]
  | cons d cs => by_cases h : d = c <;> simp [char, h]

/-- A number is read if all digits at the front write one that is in bounds. -/
theorem number_eq_some_iff {most : Option Nat} {zeros : Bool} :
    number radix most zeros bound cs = some (n, rest) ↔
      ∃ ds, cs = ds ++ rest ∧ Stops radix rest ∧ Numeral radix n ds ∧
        (∀ k, most = some k → ds.length ≤ k) ∧
        (zeros = true ∨ ds.length = 1 ∨ ds.head? ≠ some '0') ∧ n < bound := by
  constructor
  · intro h
    unfold number at h
    dsimp only at h
    split at h
    · cases h
    · next hany =>
      split at h
      · cases h
      · next hmost =>
        split at h
        · cases h
        · next hzeros =>
          split at h
          · next hbound =>
            cases h
            refine ⟨_, List.takeWhile_append_dropWhile.symm, stops_dropWhile radix cs,
              ⟨hany, fun c hc => List.all_eq_true.1 List.all_takeWhile c hc, rfl⟩, ?_, ?_, hbound⟩
            · rintro k rfl
              simpa using hmost
            · cases zeros with
              | true => exact .inl rfl
              | false =>
                by_cases hone : (cs.takeWhile (isDigit radix)).length = 1
                · exact .inr (.inl hone)
                · have hpos := List.length_pos_iff.2 hany
                  have hmany : 1 < (cs.takeWhile (isDigit radix)).length := by omega
                  exact .inr (.inr fun hhead => hzeros (by simp [hmany, hhead]))
          · cases h
  · rintro ⟨ds, rfl, hstops, hn, hmost, hzeros, hbound⟩
    obtain ⟨htake, hdrop⟩ := takeWhile_append_stops hn.digits hstops
    have hshort : most.any (· < ds.length) = false := by
      cases most with
      | none => rfl
      | some k => simpa using hmost k rfl
    have hplain : (!zeros && decide (1 < ds.length) && ds.head? == some '0') = false := by
      rcases hzeros with rfl | hone | hhead
      · rfl
      · simp [hone]
      · simp [hhead]
    simp only [number, htake, hdrop, hn.any, hshort, hplain, hn.value, hbound, if_false, if_true,
      Bool.false_eq_true]

theorem octet_eq_some_iff {o : UInt8} :
    octet cs = some (o, rest) ↔ ∃ ds, cs = ds ++ rest ∧ Stops 10 rest ∧ Octet o ds := by
  constructor
  · intro h
    obtain ⟨⟨n, _⟩, hn, heq⟩ := Option.map_eq_some_iff.1 h
    cases heq
    obtain ⟨ds, hcs, hstops, hds, hshort, hplain, hlt⟩ := number_eq_some_iff.1 hn
    have hvalue : n.toUInt8.toNat = n := by simpa using Nat.mod_eq_of_lt hlt
    refine ⟨ds, hcs, hstops, ⟨hvalue.symm ▸ hds, hshort 3 rfl, ?_⟩⟩
    exact hplain.resolve_left Bool.false_ne_true
  · rintro ⟨ds, rfl, hstops, ho⟩
    have hread : number 10 (some 3) false 256 (ds ++ rest) = some (o.toNat, rest) :=
      number_eq_some_iff.2 ⟨ds, rfl, hstops, ho.toNumeral, by rintro k ⟨⟩; exact ho.short,
        .inr ho.plain, o.toNat_lt⟩
    rw [octet, hread]
    simp

theorem group_eq_some_iff {g : UInt16} :
    group cs = some (g, rest) ↔ ∃ ds, cs = ds ++ rest ∧ Stops 16 rest ∧ Group g ds := by
  constructor
  · intro h
    obtain ⟨⟨n, _⟩, hn, heq⟩ := Option.map_eq_some_iff.1 h
    cases heq
    obtain ⟨ds, hcs, hstops, hds, hshort, -, hlt⟩ := number_eq_some_iff.1 hn
    have hvalue : n.toUInt16.toNat = n := by simpa using Nat.mod_eq_of_lt hlt
    exact ⟨ds, hcs, hstops, ⟨hvalue.symm ▸ hds, hshort 4 rfl⟩⟩
  · rintro ⟨ds, rfl, hstops, hg⟩
    have hread : number 16 (some 4) true 65536 (ds ++ rest) = some (g.toNat, rest) :=
      number_eq_some_iff.2 ⟨ds, rfl, hstops, hg.toNumeral, by rintro k ⟨⟩; exact hg.short,
        .inl rfl, g.toNat_lt⟩
    rw [group, hread]
    simp

theorem port_eq_some_iff {p : UInt16} :
    port cs = some (p, rest) ↔
      ∃ ds, cs = ':' :: (ds ++ rest) ∧ Stops 10 rest ∧ Numeral 10 p.toNat ds := by
  simp only [port, bind, pure, Option.bind_eq_some_iff, char_eq_some_iff]
  constructor
  · rintro ⟨⟨n, _⟩, ⟨_, rfl, hn⟩, heq⟩
    cases heq
    obtain ⟨ds, rfl, hstops, hds, -, -, hlt⟩ := number_eq_some_iff.1 hn
    have hvalue : n.toUInt16.toNat = n := by simpa using Nat.mod_eq_of_lt hlt
    exact ⟨ds, rfl, hstops, hvalue.symm ▸ hds⟩
  · rintro ⟨ds, rfl, hstops, hds⟩
    exact ⟨_, ⟨_, rfl, number_eq_some_iff.2 ⟨ds, rfl, hstops, hds, by simp, .inl rfl, p.toNat_lt⟩⟩,
      by simp⟩

theorem octets_eq_some_iff {o : Octets} :
    octets cs = some (o, rest) ↔ ∃ ds, cs = ds ++ rest ∧ Stops 10 rest ∧ Quad o ds := by
  have hdot : ∀ more : List Char, Stops 10 ('.' :: more) := fun _ => .cons (by decide)
  simp only [octets, bind, pure, Option.bind_eq_some_iff, char_eq_some_iff]
  constructor
  · rintro ⟨⟨a, _⟩, ha, ⟨b, _⟩, ⟨_, hdb, hb⟩, ⟨c, _⟩, ⟨_, hdc, hc⟩, ⟨d, _⟩, ⟨_, hdd, hd⟩, heq⟩
    cases heq
    dsimp only at hdb hdc hdd
    subst hdb hdc hdd
    obtain ⟨as, rfl, -, ha⟩ := octet_eq_some_iff.1 ha
    obtain ⟨bs, hbs, -, hb⟩ := octet_eq_some_iff.1 hb
    obtain ⟨cs, hcs, -, hc⟩ := octet_eq_some_iff.1 hc
    obtain ⟨ds, hds, hstops, hd⟩ := octet_eq_some_iff.1 hd
    exact ⟨_, by rw [hbs, hcs, hds]; simp, hstops, .octets ha hb hc hd⟩
  · rintro ⟨_, rfl, hstops, ⟨ha, hb, hc, hd⟩⟩
    simp only [List.append_assoc, List.cons_append]
    refine ⟨_, octet_eq_some_iff.2 ⟨_, rfl, hdot _, ha⟩, _,
      ⟨_, rfl, octet_eq_some_iff.2 ⟨_, rfl, hdot _, hb⟩⟩, _,
      ⟨_, rfl, octet_eq_some_iff.2 ⟨_, rfl, hdot _, hc⟩⟩, _,
      ⟨_, rfl, octet_eq_some_iff.2 ⟨_, rfl, hstops, hd⟩⟩, rfl⟩

/-! ## Groups -/

/-- Where a group stands and no dot follows, there are no octets. -/
theorem octets_group {g : UInt16} (h : Group g cs) (hrest : Stops 16 rest)
    (hdot : rest.head? ≠ some '.') : octets (cs ++ rest) = none := by
  cases ho : octets (cs ++ rest) with
  | none => rfl
  | some r =>
    obtain ⟨o, more⟩ := r
    obtain ⟨text, htext, -, hq⟩ := octets_eq_some_iff.1 ho
    cases hq with
    | @octets a b c d as bs cs' ds ha =>
      rw [List.append_assoc, List.cons_append] at htext
      rcases List.append_eq_append_iff.1 htext with ⟨more', has, hmore⟩ | ⟨more', hcs, hmore⟩
      · cases more' with
        | nil => exact absurd (by rw [hmore]; rfl) hdot
        | cons x more' =>
          have hx := isDigit_of_decimal (ha.digits x (by simp [has]))
          rw [hrest x (by rw [hmore]; rfl)] at hx
          cases hx
      · cases more' with
        | nil => exact absurd (by rw [← List.nil_append rest, ← hmore]; rfl) hdot
        | cons x more' =>
          obtain ⟨rfl, -⟩ := List.cons.inj hmore
          exact absurd (h.digits '.' (by simp [hcs])) (by decide)

/-- What stands before a group: a colon, but for the first of a list. -/
def lead (first : Bool) : List Char := if first then [] else [':']

theorem colonUnless_eq_some_iff {first : Bool} :
    colonUnless first cs = some rest ↔ cs = lead first ++ rest := by
  cases first
  · exact char_eq_some_iff
  · simp [colonUnless, lead]

/-- The groups that are taken stand at the front, joined by colons. -/
theorem groupList_sound {room : Nat} {first quad : Bool} {gs : List UInt16}
    (h : groupList room first cs = (gs, quad, rest)) :
    gs.length ≤ room ∧ (gs = [] ∧ quad = false ∧ rest = cs ∨
      ∃ text, cs = lead first ++ (text ++ rest) ∧ Joined quad gs text) := by
  -- On the room. Octets end the list, and after a group it goes on behind a colon.
  induction room generalizing first cs gs with
  | zero =>
    cases h
    exact ⟨Nat.le_refl 0, .inl ⟨rfl, rfl, rfl⟩⟩
  | succ room ih =>
    unfold groupList at h
    split at h
    · next o more ho =>
      cases h
      split at ho
      · cases ho
      · next hroom =>
        obtain ⟨_, hlead, ho⟩ := Option.bind_eq_some_iff.1 ho
        obtain ⟨text, rfl, -, hq⟩ := octets_eq_some_iff.1 ho
        cases hq with
        | octets ha hb hc hd =>
          refine ⟨by simp only [List.length_cons, List.length_nil]; omega, .inr ⟨_, ?_,
            .quad (.octets ha hb hc hd) rfl⟩⟩
          exact colonUnless_eq_some_iff.1 hlead
    · split at h
      · next g more hg =>
        obtain ⟨_, hlead, hg⟩ := Option.bind_eq_some_iff.1 hg
        obtain ⟨text, rfl, -, hgroup⟩ := group_eq_some_iff.1 hg
        rw [colonUnless_eq_some_iff] at hlead
        cases hlist : groupList room false more with
        | mk gs' r =>
          obtain ⟨quad', rest'⟩ := r
          rw [hlist] at h
          cases h
          obtain ⟨hlen, hrest⟩ := ih hlist
          refine ⟨Nat.succ_le_succ hlen, .inr ?_⟩
          rcases hrest with ⟨rfl, rfl, rfl⟩ | ⟨text', rfl, hjoined⟩
          · exact ⟨text, hlead, .one hgroup⟩
          · exact ⟨text ++ ':' :: text', by rw [hlead]; simp [lead], .cons hgroup hjoined⟩
      · cases h
        exact ⟨Nat.zero_le _, .inl ⟨rfl, rfl, rfl⟩⟩

theorem colonUnless_of_ends {α : Type} {first : Bool} {rest : List Char} (h : Ends rest)
    {f : List Char → Option α} (hf : ∀ more, Stops 16 more → f more = none) :
    (colonUnless first rest >>= f) = none := by
  cases first with
  | true => exact hf rest h.stops
  | false =>
    cases rest with
    | nil => rfl
    | cons c rest =>
      by_cases hc : c = ':'
      · subst hc
        simpa [colonUnless, char] using hf rest (h.colon rest rfl)
      · simp [colonUnless, char, hc]

theorem groupList_ends {room : Nat} {first : Bool} (h : Ends rest) :
    groupList room first rest = ([], false, rest) := by
  cases room with
  | zero => rfl
  | succ room =>
    have hoctets := @colonUnless_of_ends _ first _ h octets fun _ hm => octets_of_stops hm.mono
    have hgroup := @colonUnless_of_ends _ first _ h group fun _ hm => group_of_stops hm
    rw [groupList]
    simp [hoctets, hgroup]

/-- A group at the front is taken. -/
theorem groupList_group {g : UInt16} (h : Group g cs) {room : Nat} (first : Bool)
    (hrest : Stops 16 rest) (hdot : rest.head? ≠ some '.') :
    groupList (room + 1) first (lead first ++ (cs ++ rest)) =
      (g :: (groupList room false rest).1, (groupList room false rest).2) := by
  have hlead : colonUnless first (lead first ++ (cs ++ rest)) = some (cs ++ rest) :=
    colonUnless_eq_some_iff.2 rfl
  have hgroup : group (cs ++ rest) = some (g, rest) := group_eq_some_iff.2 ⟨cs, rfl, hrest, h⟩
  rw [groupList]
  simp [hlead, octets_group h hrest hdot, hgroup]

/-- Groups joined by colons are taken, if there is room for them and no more follow. -/
theorem groupList_joined {quad : Bool} {gs : List UInt16} {text : List Char}
    (h : Joined quad gs text) {room : Nat} (first : Bool) (hroom : gs.length ≤ room)
    (hrest : Ends rest) :
    ∃ quad', (quad' = true → quad = true) ∧
      groupList room first (lead first ++ (text ++ rest)) = (gs, quad', rest) := by
  induction h generalizing room first with
  | @one g cs hg =>
    cases room with
    | zero => simp at hroom
    | succ room =>
      refine ⟨false, nofun, ?_⟩
      rw [groupList_group hg first hrest.stops hrest.dot, groupList_ends hrest]
  | @quad a b c d cs hq hquad =>
    match room with
    | 0 => simp at hroom
    | 1 => simp at hroom
    | room + 2 =>
      have hlead : colonUnless first (lead first ++ (cs ++ rest)) = some (cs ++ rest) :=
        colonUnless_eq_some_iff.2 rfl
      have hread : octets (cs ++ rest) = some (#v[a, b, c, d], rest) :=
        octets_eq_some_iff.2 ⟨cs, rfl, hrest.stops.mono, hq⟩
      refine ⟨true, fun _ => hquad, ?_⟩
      rw [groupList]
      simp [hlead, hread]
  | @cons g gs cs ds hg _ ih =>
    cases room with
    | zero => simp at hroom
    | succ room =>
      have hlen : gs.length ≤ room := by simpa using hroom
      obtain ⟨quad', hquad, hlist⟩ := ih false hlen
      have hrest' : groupList room false (':' :: (ds ++ rest)) = (gs, quad', rest) := hlist
      have hcolon : Stops 16 (':' :: (ds ++ rest)) := .cons (by decide)
      refine ⟨quad', hquad, ?_⟩
      rw [List.append_assoc, List.cons_append, groupList_group hg first hcolon (by simp), hrest']

/-! ## Hosts -/

theorem ofList?_toList (g : Groups) : ofList? g.toList = some g := by
  have hlen : g.toList.length = 8 := by simp
  rw [ofList?, dif_pos hlen]
  rfl

theorem ofList?_eq_some_iff {gs : List UInt16} {g : Groups} :
    ofList? gs = some g ↔ g.toList = gs := by
  constructor
  · intro h
    unfold ofList? at h
    split at h
    · cases h
      rfl
    · cases h
  · rintro rfl
    exact ofList?_toList g

/-- The groups on one side of a double colon are taken. -/
theorem groupList_side {quad : Bool} {gs : List UInt16} {text : List Char} (h : Side quad gs text)
    {room : Nat} (hroom : gs.length ≤ room) (hrest : Ends rest) :
    ∃ quad', (quad' = true → quad = true) ∧
      groupList room true (text ++ rest) = (gs, quad', rest) := by
  rcases h with ⟨rfl, rfl⟩ | h
  · exact ⟨false, nofun, groupList_ends hrest⟩
  · exact groupList_joined h true hroom hrest

/-- What is taken up to a double colon stands on one side of it. -/
theorem groupList_sound_side {room : Nat} {quad : Bool} {gs : List UInt16}
    (h : groupList room true cs = (gs, quad, rest)) :
    gs.length ≤ room ∧ ∃ text, cs = text ++ rest ∧ Side quad gs text := by
  obtain ⟨hlen, ⟨rfl, -, rfl⟩ | ⟨text, hcs, hjoined⟩⟩ := groupList_sound h
  · exact ⟨hlen, [], rfl, .inl ⟨rfl, rfl⟩⟩
  · exact ⟨hlen, text, hcs, .inr hjoined⟩

/-- What is taken from the front of a text is a host. -/
theorem groups_sound {g : Groups} (h : groups cs = some (g, rest)) :
    ∃ text, cs = text ++ rest ∧ Host g text := by
  unfold groups at h
  cases hfront : groupList 8 true cs with
  | mk front r =>
    obtain ⟨quad, more⟩ := r
    obtain ⟨hlen, text, hcs, hside⟩ := groupList_sound_side hfront
    simp only [hfront] at h
    split at h
    · next hall =>
      obtain ⟨g', hg, heq⟩ := Option.map_eq_some_iff.1 h
      cases heq
      have htoList := ofList?_eq_some_iff.1 hg
      rcases hside with ⟨rfl, -⟩ | hjoined
      · simp at hall
      · exact ⟨text, hcs, .full (htoList ▸ hjoined.mono)⟩
    · next hfew =>
      split at h
      · cases h
      · next hquad =>
        obtain rfl : quad = false := by simpa using hquad
        simp only [bind, pure, Option.bind_eq_some_iff, char_eq_some_iff] at h
        obtain ⟨tail, ⟨_, rfl, rfl⟩, g', hg, heq⟩ := h
        generalize hback : groupList (7 - front.length) true tail = r at hg heq
        obtain ⟨back, quad', rest'⟩ := r
        cases heq
        dsimp only at hg
        obtain ⟨hlen', text', htail, hside'⟩ := groupList_sound_side hback
        refine ⟨text ++ ':' :: ':' :: text', by rw [hcs, htail]; simp, .shortened hside
          (hside'.imp id Joined.mono) (by omega) (ofList?_eq_some_iff.1 hg)⟩

/-- A host is read, if no more groups follow. -/
theorem groups_host {g : Groups} {text : List Char} (h : Host g text) (hrest : Ends rest) :
    groups (text ++ rest) = some (g, rest) := by
  cases h with
  | full hjoined =>
    obtain ⟨quad, -, hlist⟩ := @groupList_joined rest true g.toList text hjoined 8 true (by simp) hrest
    have hread : groupList 8 true (text ++ rest) = (g.toList, quad, rest) := hlist
    simp [groups, hread, ofList?_toList]
  | @shortened front back zeros cs ds hfront hback hzeros hg =>
    have hlen : front.length + zeros + back.length = 8 := by
      have hsize : g.toList.length = 8 := by simp
      rw [hg] at hsize
      simpa [Nat.add_assoc] using hsize
    -- The first list cannot go on past the double colon, though a single one would be taken.
    have hcolons : Ends (':' :: ':' :: (ds ++ rest)) :=
      ⟨.cons (by decide), by simp, fun more hm => by cases hm; exact .cons (by decide)⟩
    obtain ⟨quad, hquad, hfirst⟩ := groupList_side hfront (by omega : front.length ≤ 8) hcolons
    obtain rfl : quad = false := Bool.not_eq_true _ ▸ fun h => Bool.false_ne_true (hquad h)
    obtain ⟨quad, -, hsecond⟩ :=
      groupList_side hback (by omega : back.length ≤ 7 - front.length) hrest
    have hfill : 8 - front.length - back.length = zeros := by omega
    have hall : ofList? (front ++ (List.replicate zeros 0 ++ back)) = some g := by
      rw [← List.append_assoc, ← hg, ofList?_toList]
    rw [List.append_assoc, List.cons_append, List.cons_append]
    simp [groups, hfirst, hsecond, hfill, char, show front.length ≠ 8 by omega, hall]

/-- What is taken as a scope stands at the front. -/
theorem scope_sound {n : UInt32} (h : scope cs = (n, rest)) :
    ∃ text, cs = text ++ rest ∧ Scope n text := by
  unfold scope at h
  split at h
  · next k more hk =>
    cases h
    simp only [bind, Option.bind_eq_some_iff, char_eq_some_iff] at hk
    obtain ⟨_, rfl, hk⟩ := hk
    obtain ⟨ds, rfl, -, hds, -, -, hlt⟩ := number_eq_some_iff.1 hk
    have hvalue : k.toUInt32.toNat = k := by simpa using Nat.mod_eq_of_lt hlt
    exact ⟨'%' :: ds, rfl, .some (hvalue.symm ▸ hds)⟩
  · cases h
    exact ⟨[], rfl, .none⟩

/-- A scope before the bracket is taken. -/
theorem scope_scope {n : UInt32} {text : List Char} (h : Scope n text) :
    scope (text ++ ']' :: rest) = (n, ']' :: rest) := by
  cases h with
  | none => simp [scope, char]
  | @some n ds hn =>
    have hread : number 10 none true 4294967296 (ds ++ ']' :: rest) = some (n.toNat, ']' :: rest) :=
      number_eq_some_iff.2 ⟨ds, rfl, .cons (by decide), hn, by simp, .inl rfl, n.toNat_lt⟩
    simp [scope, char, hread]

theorem whole_eq_some_iff {α : Type} {r : Option (α × List Char)} {a : α} :
    whole r = some a ↔ r = some (a, []) := by
  constructor
  · intro h
    unfold whole at h
    split at h
    · cases h
      rfl
    · cases h
  · rintro rfl
    rfl

/-- After a host stands its scope or the bracket. -/
theorem Ends.scope {n : UInt32} {text : List Char} (h : Scope n text) :
    Ends (text ++ ']' :: rest) := by
  cases h <;> exact ⟨.cons (by decide), by simp, by simp⟩

theorem v4_eq_some_iff {a : Address} :
    v4 cs = some (a, []) ↔ ∃ o p, a = .v4 o p ∧ Written (.v4 o p) cs := by
  simp only [v4, bind, pure, Option.bind_eq_some_iff]
  constructor
  · rintro ⟨⟨o, _⟩, ho, ⟨p, _⟩, hp, heq⟩
    cases heq
    obtain ⟨text, rfl, -, hquad⟩ := octets_eq_some_iff.1 ho
    obtain ⟨ds, rfl, -, hport⟩ := port_eq_some_iff.1 hp
    rw [List.append_nil]
    exact ⟨o, p, rfl, .v4 hquad hport⟩
  · rintro ⟨o, p, rfl, ⟨hquad, hport⟩⟩
    exact ⟨_, octets_eq_some_iff.2 ⟨_, rfl, .cons (by decide), hquad⟩, _,
      port_eq_some_iff.2 ⟨_, by rw [List.append_nil], .nil, hport⟩, rfl⟩

theorem v6_eq_some_iff {a : Address} :
    v6 cs = some (a, []) ↔ ∃ g p n, a = .v6 g p 0 n ∧ Written (.v6 g p 0 n) cs := by
  simp only [v6, bind, pure, Option.bind_eq_some_iff, char_eq_some_iff]
  constructor
  · rintro ⟨⟨g, more⟩, ⟨_, rfl, hg⟩, h⟩
    obtain ⟨text, rfl, hhost⟩ := groups_sound hg
    generalize hs : scope more = r at h
    obtain ⟨n, rest⟩ := r
    obtain ⟨zs, rfl, hscope⟩ := scope_sound hs
    obtain ⟨⟨p, _⟩, ⟨_, rfl, hp⟩, heq⟩ := h
    cases heq
    obtain ⟨ds, rfl, -, hport⟩ := port_eq_some_iff.1 hp
    rw [List.append_nil]
    exact ⟨g, p, n, rfl, .v6 hhost hscope hport⟩
  · rintro ⟨g, p, n, rfl, h⟩
    cases h with
    | @v6 _ _ _ cs zs ds hhost hscope hport =>
      have hread : port (':' :: ds) = some (p, []) :=
        port_eq_some_iff.2 ⟨ds, by rw [List.append_nil], .nil, hport⟩
      refine ⟨_, ⟨_, rfl, groups_host hhost (.scope hscope)⟩, (p, []), ⟨':' :: ds, ?_, hread⟩, ?_⟩
      · dsimp only
        rw [scope_scope hscope]
      · dsimp only
        rw [scope_scope hscope]

end Parser

/-- Exactly the texts that the grammar has are read, as the address that it says. -/
theorem ofText?_eq_some_iff {s : String} {a : Address} :
    ofText? s = some a ↔ Written a s.toList := by
  constructor
  · intro h
    unfold ofText? at h
    rcases h4 : Parser.whole (Parser.v4 s.toList) with _ | b <;> rw [h4] at h
    · obtain ⟨g, p, n, rfl, hw⟩ := Parser.v6_eq_some_iff.1 (Parser.whole_eq_some_iff.1 h)
      exact hw
    · cases h
      obtain ⟨o, p, rfl, hw⟩ := Parser.v4_eq_some_iff.1 (Parser.whole_eq_some_iff.1 h4)
      exact hw
  · intro h
    cases a with
    | v4 o p =>
      have hread := Parser.v4_eq_some_iff.2 ⟨o, p, rfl, h⟩
      rw [ofText?, hread]
      rfl
    | v6 g p flow n =>
      generalize hs : s.toList = cs at h
      cases h with
      | v6 hhost hscope hport =>
        have hread := Parser.v6_eq_some_iff.2 ⟨g, p, n, rfl, .v6 hhost hscope hport⟩
        have hbracket : ∀ more, Parser.v4 ('[' :: more) = none := fun more => by
          rw [Parser.v4, Parser.octets_of_stops (.cons (by decide))]
          rfl
        rw [ofText?, hs, hread, hbracket]
        rfl

end Address

end Muster
