import Mathlib.Data.List.TakeWhile
import Muster.Proofs.Settings

/-!
# Server addresses

Which texts are addresses of a server, said without a reader (`Endpoint`), and what becomes of the
address that a client prints when it is read again. It comes back as the same host and port unless
the host begins with a blank and has no colon (`Padded`): such a host is only accepted in brackets,
it is printed without them, and then the blank is taken for one around the address.
-/
namespace Muster

namespace Text

variable {p : Char → Bool} {c : Char} {cs ds : List Char}

/-! ## Both ends of a text -/

theorem dropWhile_eq_iff :
    cs.dropWhile p = ds ↔ ∃ front, cs = front ++ ds ∧ (∀ c ∈ front, p c = true) ∧
      ∀ c, ds.head? = some c → p c = false := by
  constructor
  · rintro rfl
    refine ⟨cs.takeWhile p, List.takeWhile_append_dropWhile.symm,
      fun c hc => List.all_eq_true.1 List.all_takeWhile c hc, fun c hc => ?_⟩
    have hhead := List.head?_dropWhile_not p cs
    simpa [hc] using hhead
  · rintro ⟨front, rfl, hfront, hds⟩
    rw [List.dropWhile_append_of_pos hfront]
    cases ds with
    | nil => rfl
    | cons c ds => exact List.dropWhile_cons_of_neg (by simp [hds c rfl])

theorem dropWhileEnd_eq_iff :
    dropWhileEnd p cs = ds ↔ ∃ back, cs = ds ++ back ∧ (∀ c ∈ back, p c = true) ∧
      ∀ c, ds.getLast? = some c → p c = false := by
  rw [dropWhileEnd, ← List.reverse_inj, List.reverse_reverse, dropWhile_eq_iff]
  simp only [List.head?_reverse]
  constructor
  · rintro ⟨front, hcs, hfront, hds⟩
    refine ⟨front.reverse, ?_, by simpa using hfront, hds⟩
    rw [← List.reverse_inj, hcs, List.reverse_append, List.reverse_reverse]
  · rintro ⟨back, rfl, hback, hds⟩
    exact ⟨back.reverse, List.reverse_append, by simpa using hback, hds⟩

theorem dropWhile_of_head (h : ∀ c, cs.head? = some c → p c = false) : cs.dropWhile p = cs :=
  dropWhile_eq_iff.2 ⟨[], rfl, by simp, h⟩

theorem dropWhileEnd_of_last (h : ∀ c, cs.getLast? = some c → p c = false) :
    dropWhileEnd p cs = cs :=
  dropWhileEnd_eq_iff.2 ⟨[], by simp, by simp, h⟩

theorem toList_trim (s : String) :
    (trim s).toList = dropWhileEnd isBlank (s.toList.dropWhile isBlank) :=
  String.toList_ofList

/-- Trimming leaves no blank at either end. -/
theorem trim_ends (s : String) :
    (∀ c, (trim s).toList.head? = some c → isBlank c = false) ∧
    ∀ c, (trim s).toList.getLast? = some c → isBlank c = false := by
  obtain ⟨front, -, -, hhead⟩ := dropWhile_eq_iff.1 (rfl : s.toList.dropWhile isBlank = _)
  obtain ⟨back, hback, -, hlast⟩ := dropWhileEnd_eq_iff.1 (toList_trim s).symm
  refine ⟨fun c hc => hhead c ?_, hlast⟩
  rw [hback, List.head?_append, hc]
  rfl

theorem trim_trim (s : String) : trim (trim s) = trim s := by
  obtain ⟨hhead, hlast⟩ := trim_ends s
  apply String.toList_inj.1
  rw [toList_trim, dropWhile_of_head hhead, dropWhileEnd_of_last hlast]

theorem isBlank_of_isDigit (h : isDigit 10 c = true) : isBlank c = false := by
  obtain ⟨d, hlt, rfl⟩ := exists_digit h
  have hnone : ∀ d < 10, isBlank (Nat.digitChar d) = false := by decide
  exact hnone d hlt

theorem Unsigned.not_mem {n : Nat} (h : Unsigned n cs) (hc : isDigit 10 c = false)
    (hplus : c ≠ '+') : c ∉ cs := by
  have hdigits : ∀ {ds : List Char}, Digits n ds → c ∉ ds := by
    intro ds hds hmem
    rw [hds.isDigit c hmem] at hc
    cases hc
  cases h with
  | plain h => exact hdigits h
  | plus h => simp [hplus, hdigits h]

end Text

namespace ClientConfig

open Text

variable {before after cs : List Char} {raw host : String} {port : Nat}

/-! ## The grammar -/

/-- The text of a server: a host that is not empty, with any number of brackets around it, a colon,
and a port other than zero. -/
inductive Endpoint (host : String) (port : Nat) : List Char → Prop
  | mk {opened closed digits : List Char} (opens : ∀ c ∈ opened, c = '[')
    (closes : ∀ c ∈ closed, c = ']') (filled : host ≠ "") (first : host.toList.head? ≠ some '[')
    (last : host.toList.getLast? ≠ some ']') (number : Unsigned port digits) (low : 0 < port)
    (high : port < 65536) :
    Endpoint host port (opened ++ (host.toList ++ (closed ++ ':' :: digits)))

theorem splitLastColon_eq_none_iff : splitLastColon cs = none ↔ ':' ∉ cs := by
  induction cs with
  | nil => simp [splitLastColon]
  | cons c cs ih =>
    rw [List.mem_cons, not_or, ← ih]
    cases hs : splitLastColon cs with
    | none => by_cases hc : c = ':' <;> simp [splitLastColon, hs, hc, eq_comm]
    | some r => simp [splitLastColon, hs]

theorem splitLastColon_append (h : ':' ∉ after) :
    splitLastColon (before ++ ':' :: after) = some (before, after) := by
  induction before with
  | nil => simp [splitLastColon, splitLastColon_eq_none_iff.2 h]
  | cons c before ih => simp [splitLastColon, ih]

theorem exists_last_colon (h : ':' ∈ cs) :
    ∃ before after, cs = before ++ ':' :: after ∧ ':' ∉ after := by
  obtain ⟨after, before, hcs, hafter⟩ := List.eq_append_cons_of_mem (List.mem_reverse.2 h)
  refine ⟨before.reverse, after.reverse, ?_, by simpa using hafter⟩
  rw [← List.reverse_inj, hcs]
  simp

/-- A host without its brackets. -/
def bare (before : List Char) : List Char :=
  dropWhileEnd (· == ']') (before.dropWhile (· == '['))

theorem bare_eq_iff (hhost : host ≠ "") :
    bare before = host.toList ↔ ∃ opened closed, before = opened ++ (host.toList ++ closed) ∧
      (∀ c ∈ opened, c = '[') ∧ (∀ c ∈ closed, c = ']') ∧ host.toList.head? ≠ some '[' ∧
      host.toList.getLast? ≠ some ']' := by
  have hne : host.toList ≠ [] := by simpa [String.toList_eq_nil_iff] using hhost
  rw [bare, dropWhileEnd_eq_iff]
  constructor
  · rintro ⟨closed, hdrop, hcloses, hlast⟩
    obtain ⟨opened, hbefore, hopens, hfirst⟩ := dropWhile_eq_iff.1 hdrop
    refine ⟨opened, closed, hbefore, by simpa using hopens, by simpa using hcloses, ?_, ?_⟩
    · intro hhead
      have := hfirst '[' (by rw [List.head?_append, hhead]; rfl)
      simp at this
    · intro hend
      simpa using hlast ']' hend
  · rintro ⟨opened, closed, rfl, hopens, hcloses, hfirst, hlast⟩
    refine ⟨closed, ?_, by simpa using hcloses, ?_⟩
    · refine dropWhile_eq_iff.2 ⟨opened, rfl, by simpa using hopens, fun c hc => ?_⟩
      obtain ⟨d, ds, hd⟩ := List.exists_cons_of_ne_nil hne
      rw [hd] at hc hfirst
      cases hc
      simpa using hfirst
    · intro c hc
      rw [hc] at hlast
      simpa using hlast

def emptyHost : Fault := .configuration "empty host in registry.redis.serverAddr"

/-- What is read where a colon and a port stand at the end. -/
theorem parseServerAddr_of_port (htext : (trim raw).toList = before ++ ':' :: after)
    (hport : Unsigned port after) (hlow : 0 < port) (hhigh : port < 65536) :
    parseServerAddr raw =
      if bare before = [] then .error emptyHost else .ok (String.ofList (bare before), port) := by
  have hsplit : splitLastColon (trim raw).toList = some (before, after) := by
    rw [htext, splitLastColon_append (hport.not_mem (by decide) (by decide))]
  have hnumber : unsigned? 65536 (String.ofList after) = some port :=
    unsigned?_eq_some_iff.2 ⟨by rwa [String.toList_ofList], hhigh⟩
  simp only [parseServerAddr, hsplit, hnumber, Option.filter, hlow, decide_true, if_true]
  rfl

/-- Exactly the addresses of servers are read, as the host and the port that they name. -/
theorem parseServerAddr_eq_ok_iff :
    parseServerAddr raw = .ok (host, port) ↔ Endpoint host port (trim raw).toList := by
  constructor
  · intro h
    by_cases hcolon : ':' ∈ (trim raw).toList
    · obtain ⟨before, after, htext, hafter⟩ := exists_last_colon hcolon
      have hsplit : splitLastColon (trim raw).toList = some (before, after) := by
        rw [htext, splitLastColon_append hafter]
      cases hnumber : (unsigned? 65536 (String.ofList after)).filter (0 < ·) with
      | none => simp [parseServerAddr, hsplit, hnumber] at h
      | some n =>
        obtain ⟨hn, hlow⟩ := Option.filter_eq_some_iff.1 hnumber
        obtain ⟨hunsigned, hhigh⟩ := unsigned?_eq_some_iff.1 hn
        rw [String.toList_ofList] at hunsigned
        have hlow : 0 < n := by simpa using hlow
        rw [parseServerAddr_of_port htext hunsigned hlow hhigh] at h
        split at h
        · cases h
        · next hbare =>
          rw [Except.ok.injEq, Prod.mk.injEq] at h
          obtain ⟨hhost, rfl⟩ := h
          have hbare' : bare before = host.toList := by rw [← hhost, String.toList_ofList]
          have hne : host ≠ "" := by
            rintro rfl
            exact hbare hbare'
          obtain ⟨opened, closed, rfl, hopens, hcloses, hfirst, hlast⟩ :=
            (bare_eq_iff hne).1 hbare'
          rw [htext, List.append_assoc, List.append_assoc]
          exact .mk hopens hcloses hne hfirst hlast hunsigned hlow hhigh
    · rw [parseServerAddr, splitLastColon_eq_none_iff.2 hcolon] at h
      cases h
  · intro h
    generalize htext : (trim raw).toList = cs at h
    cases h with
    | @mk opened closed digits hopens hcloses hhost hfirst hlast hport hlow hhigh =>
      have hbare : bare (opened ++ (host.toList ++ closed)) = host.toList :=
        (bare_eq_iff hhost).2 ⟨opened, closed, rfl, hopens, hcloses, hfirst, hlast⟩
      have hne : host.toList ≠ [] := by simpa [String.toList_eq_nil_iff] using hhost
      have hsplit : (trim raw).toList = (opened ++ (host.toList ++ closed)) ++ ':' :: digits := by
        simp [htext]
      rw [parseServerAddr_of_port hsplit hport hlow hhigh, hbare, if_neg hne, String.ofList_toList]

/-! ## The printed address -/

/-- The host begins with a blank, and no brackets are printed around it. -/
def Padded (host : String) : Prop :=
  (∃ c, host.toList.head? = some c ∧ isBlank c = true) ∧ ':' ∉ host.toList

/-- A host as it is printed. -/
def printed (host : List Char) : List Char :=
  if ':' ∈ host then '[' :: (host ++ [']']) else host

theorem toList_serverAddr (c : ClientConfig) :
    c.serverAddr.toList = printed c.host.toList ++ ':' :: numeral 10 c.port := by
  by_cases hcolon : ':' ∈ c.host.toList <;> simp [serverAddr, printed, hcolon, decimal]

/-- Only blanks in front of a printed address can be lost. -/
theorem toList_trim_serverAddr (c : ClientConfig) :
    (trim c.serverAddr).toList =
      (printed c.host.toList).dropWhile isBlank ++ ':' :: numeral 10 c.port := by
  have hfront : (printed c.host.toList ++ ':' :: numeral 10 c.port).dropWhile isBlank =
      (printed c.host.toList).dropWhile isBlank ++ ':' :: numeral 10 c.port := by
    rw [List.dropWhile_append]
    split
    · next hnil =>
      rw [List.isEmpty_iff.1 hnil]
      rfl
    · rfl
  rw [toList_trim, toList_serverAddr, hfront]
  refine dropWhileEnd_of_last fun ch hch => isBlank_of_isDigit ?_
  obtain ⟨last, hlast⟩ := Option.isSome_iff_exists.1
    (List.getLast?_isSome.2 (@numeral_ne_nil 10 c.port))
  rw [List.getLast?_append, List.getLast?_cons, hlast] at hch
  cases hch
  exact isDigit_numeral (by decide) (by decide) _ (List.mem_of_getLast? hlast)

variable {c : ClientConfig}

theorem bare_printed (hhost : host ≠ "") (hfirst : host.toList.head? ≠ some '[')
    (hlast : host.toList.getLast? ≠ some ']') (h : ¬ Padded host) :
    bare ((printed host.toList).dropWhile isBlank) = host.toList := by
  by_cases hcolon : ':' ∈ host.toList
  · rw [printed, if_pos hcolon, List.dropWhile_cons_of_neg (by decide)]
    exact (bare_eq_iff hhost).2 ⟨['['], [']'], rfl, by simp, by simp, hfirst, hlast⟩
  · have hkept : host.toList.dropWhile isBlank = host.toList := by
      refine dropWhile_of_head fun ch hch => ?_
      cases hblank : isBlank ch with
      | false => rfl
      | true => exact absurd ⟨⟨ch, hch, hblank⟩, hcolon⟩ h
    rw [printed, if_neg hcolon, hkept]
    exact (bare_eq_iff hhost).2 ⟨[], [], by simp, by simp, by simp, hfirst, hlast⟩

/-- A padded host loses its blanks, and brackets that come to stand in front. -/
theorem bare_printed_padded (hlast : host.toList.getLast? ≠ some ']') (h : Padded host) :
    bare ((printed host.toList).dropWhile isBlank) =
      (host.toList.dropWhile isBlank).dropWhile (· == '[') := by
  rw [printed, if_neg h.2]
  refine dropWhileEnd_of_last fun ch hch => ?_
  have hsuffix : (host.toList.dropWhile isBlank).dropWhile (· == '[') <:+ host.toList :=
    (List.dropWhile_suffix _).trans (List.dropWhile_suffix _)
  obtain ⟨front, hfront⟩ := hsuffix
  rw [← hfront, List.getLast?_append, hch] at hlast
  simpa using hlast

/-- What is left of a padded host is shorter, and still has no colon. -/
theorem Padded.rest (h : Padded host) :
    (host.toList.dropWhile isBlank).dropWhile (· == '[') ≠ host.toList ∧
      ':' ∉ (host.toList.dropWhile isBlank).dropWhile (· == '[') := by
  obtain ⟨⟨ch, hhead, hblank⟩, hcolon⟩ := h
  obtain ⟨cs, hcs⟩ := List.head?_eq_some_iff.1 hhead
  have hinner := List.dropWhile_suffix (l := cs) isBlank
  have houter := List.dropWhile_suffix (l := cs.dropWhile isBlank) (· == '[')
  rw [hcs, List.dropWhile_cons_of_pos hblank]
  constructor
  · intro hsame
    have hlength := (houter.trans hinner).length_le
    rw [hsame, List.length_cons] at hlength
    omega
  · intro hmem
    exact hcolon (hcs ▸ List.mem_cons_of_mem _ ((houter.trans hinner).subset hmem))

/-- What the printed address is read as. -/
theorem parseServerAddr_serverAddr (c : ClientConfig) (hlow : 0 < c.port) (hhigh : c.port < 65536) :
    parseServerAddr c.serverAddr =
      let host := bare ((printed c.host.toList).dropWhile isBlank)
      if host = [] then .error emptyHost else .ok (String.ofList host, c.port) :=
  parseServerAddr_of_port (toList_trim_serverAddr c) (.plain (digits_numeral c.port)) hlow hhigh

/-! ## Accepted addresses -/

/-- The host and the port of an accepted configuration are those of its address. -/
theorem ReadFrom.endpoint {src : Source} (h : ReadFrom src c) :
    ∃ raw, src.setting? "serverAddr" = some raw ∧ Endpoint c.host c.port raw.toList := by
  obtain ⟨raw, hraw, hserver⟩ := h.server
  obtain ⟨text, -, rfl⟩ := Option.map_eq_some_iff.1 hraw
  rw [parseServerAddr_eq_ok_iff, trim_trim] at hserver
  exact ⟨_, hraw, hserver⟩

theorem ReadFrom.host_port {src : Source} (h : ReadFrom src c) :
    c.host ≠ "" ∧ c.host.toList.head? ≠ some '[' ∧ c.host.toList.getLast? ≠ some ']' ∧
      0 < c.port ∧ c.port < 65536 := by
  obtain ⟨raw, -, hendpoint⟩ := h.endpoint
  generalize raw.toList = cs at hendpoint
  cases hendpoint with
  | mk _ _ hhost hfirst hlast _ hlow hhigh => exact ⟨hhost, hfirst, hlast, hlow, hhigh⟩

/-- A padded host is only accepted in brackets. -/
theorem ReadFrom.bracketed {src : Source} (h : ReadFrom src c) (hpadded : Padded c.host) :
    ∃ raw, src.setting? "serverAddr" = some raw ∧ raw.toList.head? = some '[' := by
  obtain ⟨raw, hraw, hendpoint⟩ := h.endpoint
  refine ⟨raw, hraw, ?_⟩
  obtain ⟨text, -, rfl⟩ := Option.map_eq_some_iff.1 hraw
  obtain ⟨⟨ch, hhead, hblank⟩, -⟩ := hpadded
  have hfront := (trim_ends text).1
  generalize (trim text).toList = cs at hendpoint hfront
  cases hendpoint with
  | @mk opened closed digits hopens =>
    cases opened with
    | nil =>
      have := hfront ch (by rw [List.nil_append, List.head?_append, hhead]; rfl)
      rw [hblank] at this
      cases this
    | cons b opened => rw [hopens b List.mem_cons_self]; rfl

/-- The address that an accepted configuration prints is read as the same host and port, and is
printed the same again, unless the host is padded. A padded host was written in brackets; what is
left of it when the address is read is the host behind the blanks, or nothing, and then the address
is refused. This happens to every host that consists of blanks. -/
theorem address_read_back {self : String} {src : Source} (h : ofSource self src = .ok c) :
    (parseServerAddr c.serverAddr = .ok (c.host, c.port) ↔ ¬ Padded c.host) ∧
    ((∃ host port, parseServerAddr c.serverAddr = .ok (host, port) ∧
      { c with host, port }.serverAddr = c.serverAddr) ↔ ¬ Padded c.host) ∧
    (Padded c.host →
      (∃ raw, src.setting? "serverAddr" = some raw ∧ raw.toList.head? = some '[') ∧
      parseServerAddr c.serverAddr =
        let rest := (c.host.toList.dropWhile isBlank).dropWhile (· == '[')
        if rest = [] then .error emptyHost else .ok (String.ofList rest, c.port)) ∧
    ((∀ ch ∈ c.host.toList, isBlank ch = true) →
      Padded c.host ∧ parseServerAddr c.serverAddr = .error emptyHost) := by
  have hread := readFrom_of_ofSource h
  obtain ⟨hhost, hfirst, hlast, hlow, hhigh⟩ := hread.host_port
  have hne : c.host.toList ≠ [] := by simpa [String.toList_eq_nil_iff] using hhost
  have hplain (hp : ¬ Padded c.host) : parseServerAddr c.serverAddr = .ok (c.host, c.port) := by
    rw [parseServerAddr_serverAddr c hlow hhigh, bare_printed hhost hfirst hlast hp]
    simp only [if_neg hne, String.ofList_toList]
  have hpadded (hp : Padded c.host) := by
    have hresult := parseServerAddr_serverAddr c hlow hhigh
    rwa [bare_printed_padded hlast hp] at hresult
  have hchanged (hp : Padded c.host) {host : String} {port : Nat}
      (hok : parseServerAddr c.serverAddr = .ok (host, port)) :
      { c with host, port }.serverAddr ≠ c.serverAddr := by
    rw [hpadded hp] at hok
    dsimp only at hok
    split at hok
    · cases hok
    · cases hok
      intro hsame
      have htext := congrArg String.toList hsame
      rw [toList_serverAddr, toList_serverAddr, String.toList_ofList, printed, printed,
        if_neg hp.rest.2, if_neg hp.2] at htext
      exact hp.rest.1 (List.append_cancel_right htext)
  refine ⟨⟨fun hok hp => hchanged hp hok rfl, hplain⟩, ⟨?_, fun hp => ⟨_, _, hplain hp, rfl⟩⟩,
    fun hp => ⟨hread.bracketed hp, hpadded hp⟩, fun hblank => ?_⟩
  · rintro ⟨host, port, hok, hsame⟩ hp
    exact hchanged hp hok hsame
  · obtain ⟨ch, cs, hcs⟩ := List.exists_cons_of_ne_nil hne
    have hp : Padded c.host := by
      refine ⟨⟨ch, by rw [hcs]; rfl, hblank ch (by simp [hcs])⟩, fun hcolon => ?_⟩
      have := hblank _ hcolon
      revert this
      decide
    refine ⟨hp, ?_⟩
    rw [hpadded hp, List.dropWhile_eq_nil_iff.2 hblank]
    rfl

/-- A host that begins with a blank and has colons comes back, whatever brackets it was written
in. -/
theorem address_read_back_colons :
    ofSource "1@host" (Source.ofTable (.ofList
      [("registry.redis.serverAddr", "[[ ::1]]]:+06379 ")])) =
      .ok { host := " ::1", port := 6379, identity := "1@host" } ∧
    parseServerAddr (serverAddr { host := " ::1", port := 6379, identity := "1@host" }) =
      .ok (" ::1", 6379) := by
  have haccepted : ofSource "1@host" (Source.ofTable (.ofList
      [("registry.redis.serverAddr", "[[ ::1]]]:+06379 ")])) =
      .ok { host := " ::1", port := 6379, identity := "1@host" } := rfl
  have hcolon : ':' ∈ " ::1".toList := by decide
  exact ⟨haccepted, (address_read_back haccepted).1.2 fun hpadded => hpadded.2 hcolon⟩

/-- A blank host is accepted in brackets, and the address that is printed for it is refused. -/
theorem blank_host_accepted :
    ofSource "1@host" (Source.ofTable (.ofList [("registry.redis.serverAddr", "[ ]:80")])) =
      .ok { host := " ", port := 80, identity := "1@host" } ∧
    serverAddr { host := " ", port := 80, identity := "1@host" } = " :80" ∧
    parseServerAddr " :80" = .error emptyHost :=
  ⟨rfl, rfl, rfl⟩

end ClientConfig

end Muster
