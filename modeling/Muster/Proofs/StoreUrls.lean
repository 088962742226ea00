import Muster.Store.Url
import Muster.Proofs.Endpoints
import Muster.Proofs.Escapes

/-!
# The store URLs of clients

The password is put between a colon and the first `@` of the URL, as an escaped text, and nothing
else of the URL depends on it. Where the host is a name, the URL is read as the store that the
configuration names, with its password, whatever characters that has
(`ClientConfig.ofText?_redisUrl`).
-/
namespace Muster

open Text

namespace ClientConfig

/-! ## The password -/

/-- Server and database, as they end the URL. -/
def location (c : ClientConfig) : String := c.serverAddr ++ "/" ++ decimalInt c.db

theorem toList_redisUrl_some (c : ClientConfig) (p : String) :
    (redisUrl { c with password := some p }).toList =
      "redis://:".toList ++ ((percentEncode p).toList ++ '@' :: c.location.toList) := by
  have hurl : redisUrl { c with password := some p } =
      "redis://:" ++ percentEncode p ++ "@" ++ c.location := rfl
  rw [hurl]
  simp only [String.toList_append, List.append_assoc]
  rfl

theorem toList_redisUrl_none (c : ClientConfig) :
    (redisUrl { c with password := none }).toList = "redis://".toList ++ c.location.toList := by
  have hurl : redisUrl { c with password := none } = "redis://" ++ c.location := rfl
  rw [hurl, String.toList_append]

/-- Different passwords make different URLs, and so do a password and none. -/
theorem redisUrl_injective (c : ClientConfig) :
    Function.Injective fun password => redisUrl { c with password } := by
  have hnone (p : String) :
      redisUrl { c with password := none } ≠ redisUrl { c with password := some p } := by
    -- The server is the same, so the URL with a password is longer.
    intro h
    have hlength := congrArg (fun url => url.toList.length) h
    rw [toList_redisUrl_none, toList_redisUrl_some] at hlength
    simp only [List.length_append, List.length_cons] at hlength
    have hscheme : "redis://:".toList.length = "redis://".toList.length + 1 := rfl
    omega
  intro p q h
  dsimp only at h
  cases p with
  | none =>
    cases q with
    | none => rfl
    | some q => exact absurd h (hnone q)
  | some p =>
    cases q with
    | none => exact absurd h.symm (hnone p)
    | some q =>
      have htext := congrArg String.toList h
      rw [toList_redisUrl_some, toList_redisUrl_some] at htext
      have hsecret := List.append_cancel_right (List.append_cancel_left htext)
      rw [percentEncode_injective (String.toList_inj.1 hsecret)]

/-- Whatever the password is, it stands escaped between the beginning of the URL and the first `@`,
where it can be read back, and behind that `@` come the server and the number of the database. No
other password, and no URL without one, leads to the same URL. -/
theorem redisUrl_with_password (c : ClientConfig) (p : String) :
    ∃ secret : List Char,
      (redisUrl { c with password := some p }).toList =
        "redis://:".toList ++ (secret ++ '@' ::
          (c.serverAddr ++ "/" ++ decimalInt c.db).toList) ∧
      (∀ ch ∈ secret, ch ∉ ['@', '/', ':', '?', '#'] ∧ isBlank ch = false) ∧
      percentDecode secret = bytes p ∧ Utf8.decode (percentDecode secret) = .ok p ∧
      ∀ other, redisUrl { c with password := other } = redisUrl { c with password := some p } →
        other = some p := by
  have hbytes := percentDecode_percentEncode p
  refine ⟨(percentEncode p).toList, toList_redisUrl_some c p,
    fun ch hch => plain_of_mem_percentEncode hch, hbytes, ?_, fun other h => ?_⟩
  · rw [hbytes, Utf8.decode_bytes]
  · exact redisUrl_injective c h

end ClientConfig

/-! ## Reading the parts of a URL -/

namespace StoreUrl

variable {cs before after : List Char} {n : Nat} {i : Int} {ch : Char}

theorem splitCredentials_of_not_mem (h : '@' ∉ cs) : splitCredentials cs = (none, cs) := by
  induction cs with
  | nil => rfl
  | cons c cs ih =>
    rw [List.mem_cons, not_or] at h
    rw [splitCredentials, ih h.2]
    exact if_neg (Ne.symm h.1)

theorem splitCredentials_append (h : '@' ∉ after) :
    splitCredentials (before ++ '@' :: after) = (some before, after) := by
  induction before with
  | nil => rw [List.nil_append, splitCredentials, splitCredentials_of_not_mem h]; rfl
  | cons c before ih => rw [List.cons_append, splitCredentials, ih]

theorem splitPort_append (h : ∀ c ∈ before, c ≠ ':' ∧ c ≠ '[') :
    splitPort false (before ++ ':' :: after) = (before, some after) := by
  induction before with
  | nil => rfl
  | cons c before ih =>
    obtain ⟨hcolon, hbracket⟩ := h c List.mem_cons_self
    have hrest := ih fun d hd => h d (List.mem_cons_of_mem _ hd)
    rw [List.cons_append, splitPort, if_neg fun hc => hcolon hc.1, if_neg hbracket, ite_self]
    simp only [hrest]

/-- A name of a host. -/
def IsName (host : List Char) : Prop :=
  host ≠ [] ∧ ∀ c ∈ host, isForbidden c = false ∧ isBlank c = false

instance (host : List Char) : Decidable (IsName host) :=
  decidable_of_iff (host ≠ [] ∧ host.all (fun c => !isForbidden c && !isBlank c) = true)
    (by simp [IsName])

theorem IsName.ne (h : IsName cs) {c : Char} (hc : isForbidden c = true) : ∀ d ∈ cs, d ≠ c := by
  rintro d hd rfl
  rw [(h.2 d hd).1] at hc
  cases hc

theorem IsName.plain (h : IsName cs) : ∀ c ∈ cs, Plain c := by
  intro c hc
  refine ⟨fun hmem => ?_, (h.2 c hc).2⟩
  have hall : ['@', '/', ':', '?', '#'].all isForbidden = true := by decide
  exact h.ne (List.all_eq_true.1 hall c hmem) c hc rfl

theorem host?_of_isName (h : IsName cs) : host? cs = some (String.ofList cs) := by
  have hany : cs.any isForbidden = false := by
    rw [List.any_eq_false]
    intro c hc
    simp [(h.2 c hc).1]
  unfold host?
  split
  · next inner => exact absurd rfl (h.ne (by decide : isForbidden '[' = true) '[' (by simp))
  · rw [if_neg (by simp [h.1, hany])]

theorem port?_of_digits (h : Digits n cs) (hn : n < 65536) : port? (some cs) = some (n, []) := by
  have htake : cs.takeWhile (isDigit 10) = cs := List.takeWhile_eq_self_iff.2 h.isDigit
  have hdrop : cs.dropWhile (isDigit 10) = [] := List.dropWhile_eq_nil_iff.2 h.isDigit
  simp only [port?, htake, hdrop, h.value, h.ne_nil, hn, if_true, if_false, ne_eq,
    not_true_eq_false, false_and]

theorem credential?_percentEncode (p : String) :
    credential? (percentEncode p).toList = some ((some p).filter (· ≠ "")) := by
  by_cases hp : p = ""
  · subst hp
    rfl
  · have hne : (percentEncode p).toList ≠ [] := by
      intro h
      have hempty : percentEncode p = percentEncode "" := String.toList_inj.1 (h.trans rfl)
      exact hp (percentEncode_injective hempty)
    rw [credential?, if_neg hne, percentDecode_percentEncode, Utf8.decode_bytes,
      Option.filter_some, if_pos (by simpa using hp)]

/-- The characters of an integer are digits, but for the sign. -/
theorem mem_decimalInt (h : ch ∈ (decimalInt i).toList) : ch = '-' ∨ isDigit 10 ch = true := by
  have hdigits {n : Nat} (h : ch ∈ (decimal n).toList) : isDigit 10 ch = true := by
    rw [decimal, String.toList_ofList] at h
    exact (digits_numeral n).isDigit ch h
  cases i with
  | ofNat n => exact .inr (hdigits h)
  | negSucc n =>
    rw [decimalInt, String.toList_append] at h
    rcases List.mem_append.1 h with h | h
    · exact .inl (List.mem_singleton.1 h)
    · exact .inr (hdigits h)

theorem signed_decimalInt (i : Int) : Signed i (decimalInt i).toList := by
  cases i with
  | ofNat n =>
    rw [decimalInt, decimal, String.toList_ofList]
    exact .natural (.plain (digits_numeral n))
  | negSucc n =>
    have htext : ("-" ++ decimal (n + 1)).toList = '-' :: numeral 10 (n + 1) := by simp [decimal]
    rw [decimalInt, htext, Int.negSucc_eq]
    exact .minus (digits_numeral (n + 1))

/-- Digits have no meaning in a path. -/
theorem plain_of_isDigit (h : isDigit 10 ch = true) : Plain ch ∧ ch ≠ '%' ∧ ch ≠ '.' := by
  have hall : ∀ d < 10,
      Plain (Nat.digitChar d) ∧ Nat.digitChar d ≠ '%' ∧ Nat.digitChar d ≠ '.' := by
    decide
  obtain ⟨d, hd, rfl⟩ := exists_digit h
  exact hall d hd

theorem plain_of_mem_decimalInt (h : ch ∈ (decimalInt i).toList) :
    Plain ch ∧ ch ≠ '%' ∧ ch ≠ '.' := by
  rcases mem_decimalInt h with rfl | hdigit
  · decide
  · exact plain_of_isDigit hdigit

theorem plainDots_of_not_mem (h : '%' ∉ cs) : plainDots cs = cs := by
  induction cs with
  | nil => rfl
  | cons c cs ih =>
    rw [List.mem_cons, not_or] at h
    rw [plainDots, ih h.2]
    · rintro rest rfl
      exact absurd rfl h.1
    · rintro rest rfl
      exact absurd rfl h.1

theorem resolveDots_pair (h : '%' ∉ cs) (hdot : '.' ∉ cs) : resolveDots [[], cs] = [[], cs] := by
  have hcs : plainDots cs ≠ ['.', '.'] ∧ plainDots cs ≠ ['.'] := by
    rw [plainDots_of_not_mem h]
    constructor <;>
    · rintro rfl
      exact hdot (by decide)
  simp only [resolveDots, List.foldl_cons, List.foldl_nil, if_neg hcs.1, if_neg hcs.2]
  rfl

theorem db?_decimalInt (hlow : -(2 ^ 63) ≤ i) (hhigh : i < 2 ^ 63) :
    db? ('/' :: (decimalInt i).toList) = some i := by
  have hread : signed? 64 (String.ofList (decimalInt i).toList) = some i := by
    rw [String.ofList_toList, signed?_eq_some_iff]
    exact ⟨signed_decimalInt i, hlow, hhigh⟩
  have hne : (decimalInt i).toList ≠ [] := (signed_decimalInt i).ne_nil
  have hplain := fun ch (h : ch ∈ (decimalInt i).toList) => plain_of_mem_decimalInt h
  generalize (decimalInt i).toList = cs at *
  have hslash : '/' ∉ cs := fun h => (hplain _ h).1.1 (by decide)
  have hsplit : ('/' :: cs).splitOn '/' = [[], cs] := by
    have hfirst := List.splitOn_append_cons_self_of_not_mem (List.not_mem_nil : '/' ∉ []) cs
    rwa [List.nil_append, List.splitOn_eq_singleton hslash] at hfirst
  have hresolve : resolveDots [[], cs] = [[], cs] :=
    resolveDots_pair (fun h => (hplain _ h).2.1 rfl) fun h => (hplain _ h).2.2 rfl
  have hjoin : ['/'].intercalate [[], cs] = '/' :: cs := by
    rw [← hsplit, List.intercalate_splitOn]
  have hother (c : Char) (h : c ∈ cs) : (c == '/') = false := by
    rw [beq_eq_false_iff_ne]
    rintro rfl
    exact hslash h
  have hends : dropWhileEnd (· == '/') (('/' :: cs).dropWhile (· == '/')) = cs := by
    rw [List.dropWhile_cons_of_pos rfl,
      dropWhile_of_head fun c hc => hother c (List.mem_of_head? hc),
      dropWhileEnd_of_last fun c hc => hother c (List.mem_of_getLast? hc)]
  simp only [db?, hsplit, hresolve, hjoin, hends, if_neg hne, hread]

/-! ## Reading the whole URL -/

/-- A character of a URL up to its path. -/
def Inner (c : Char) : Prop := c = '@' ∨ c = ':' ∨ Plain c

instance (c : Char) : Decidable (Inner c) := inferInstanceAs (Decidable (_ ∨ _ ∨ _))

theorem Inner.not_endsAuthority {c : Char} (h : Inner c) : endsAuthority c = false := by
  rcases h with rfl | rfl | ⟨hmem, -⟩
  · decide
  · decide
  · have hends : c ≠ '/' ∧ c ≠ '?' ∧ c ≠ '#' := by
      simp only [List.mem_cons, not_or] at hmem
      exact ⟨hmem.2.1, hmem.2.2.2.1, hmem.2.2.2.2.1⟩
    simp [endsAuthority, hends]

/-- Nothing of such a text is passed over. -/
theorem filter_inner (h : ∀ c ∈ cs, Inner c ∨ c = '/') :
    cs.filter (fun c => !(c == '\t' || c == '\n' || c == '\r')) = cs := by
  rw [List.filter_eq_self]
  intro c hc
  rcases h c hc with (rfl | rfl | ⟨-, hblank⟩) | rfl
  · decide
  · decide
  · by_contra hcontrol
    simp only [Bool.not_eq_true', Bool.not_eq_false, Bool.or_eq_true, beq_iff_eq] at hcontrol
    rcases hcontrol with (rfl | rfl) | rfl <;> exact absurd hblank (by decide)
  · decide

/-- A URL without a user is read in its parts: the password, if there is one, the host and the port
in front of the first slash, and the database behind it. -/
theorem ofText?_of_parts {s : String} {authority host digits path : List Char}
    {credentials colon : Option (List Char)} {password : Option String} {port : Nat} {db : Int}
    (htext : s.toList = "redis://".toList ++ (authority ++ '/' :: path))
    (hauthority : ∀ c ∈ authority, Inner c) (hpath : ∀ c ∈ path, Plain c)
    (hsplit : splitCredentials authority = (credentials, host ++ ':' :: digits))
    (hcolon : splitPort false (credentials.getD []) = ([], colon))
    (hpassword : credential? (colon.getD []) = some password) (hhost : IsName host)
    (hdigits : Digits port digits) (hport : port < 65536) (hdb : db? ('/' :: path) = some db) :
    ofText? s = some { user := none, password, host := String.ofList host, port, db } := by
  have hkept : s.toList.filter (fun c => !(c == '\t' || c == '\n' || c == '\r')) = s.toList := by
    have hscheme : "redis://".toList.all (fun c => Inner c ∨ c = '/') = true := by decide
    refine filter_inner fun c hc => ?_
    rw [htext, List.mem_append, List.mem_append, List.mem_cons] at hc
    rcases hc with hc | hc | rfl | hc
    · exact of_decide_eq_true (List.all_eq_true.1 hscheme c hc)
    · exact .inl (hauthority c hc)
    · exact .inr rfl
    · exact .inl (.inr (.inr (hpath c hc)))
  have htake : s.toList.take 8 = "redis://".toList := by
    rw [htext]
    rfl
  have hdrop : s.toList.drop 8 = authority ++ '/' :: path := by
    rw [htext]
    rfl
  have hends : ∀ c ∈ authority, (!endsAuthority c) = true := fun c hc => by
    rw [(hauthority c hc).not_endsAuthority]
    rfl
  have hfront : (authority ++ '/' :: path).takeWhile (fun c => !endsAuthority c) = authority := by
    rw [List.takeWhile_append_of_pos hends, List.takeWhile_cons_of_neg (by decide), List.append_nil]
  have hback : (authority ++ '/' :: path).dropWhile (fun c => !endsAuthority c) = '/' :: path := by
    rw [List.dropWhile_append_of_pos hends, List.dropWhile_cons_of_neg (by decide)]
  have hserver : splitPort false (host ++ ':' :: digits) = (host, some digits) :=
    splitPort_append fun c hc => ⟨hhost.ne (by decide) c hc, hhost.ne (by decide) c hc⟩
  have hwhole : ('/' :: path).takeWhile (fun c => !(c == '?' || c == '#')) = '/' :: path := by
    rw [List.takeWhile_cons_of_pos (by decide), List.takeWhile_eq_self_iff.2]
    intro c hc
    have hinner : Inner c := .inr (.inr (hpath c hc))
    have hends := hinner.not_endsAuthority
    simp only [endsAuthority, Bool.or_eq_false_iff] at hends
    rw [hends.1.2, hends.2]
    rfl
  have huser : credential? [] = some none := rfl
  simp only [ofText?, hkept, htake, hdrop, if_true, Option.bind_eq_bind, Option.bind_some, hfront,
    hback, hsplit, hserver, host?_of_isName hhost, port?_of_digits hdigits hport, hcolon, huser,
    hpassword, List.nil_append, hwhole, hdb]
  rfl

end StoreUrl

namespace ClientConfig

open StoreUrl

theorem toList_location (c : ClientConfig) (hname : IsName c.host.toList) :
    c.location.toList =
      c.host.toList ++ ':' :: numeral 10 c.port ++ '/' :: (decimalInt c.db).toList := by
  have hcolon : ':' ∉ c.host.toList := fun h => hname.ne (by decide) _ h rfl
  rw [location, String.toList_append, String.toList_append, toList_serverAddr, printed,
    if_neg hcolon, List.append_assoc]
  rfl

/-- Where the host is a name, the URL names the host, the port and the database of the
configuration, and presents its password, whatever that is. -/
theorem ofText?_redisUrl (c : ClientConfig) (hname : IsName c.host.toList) (hport : c.port < 65536)
    (hlow : -(2 ^ 63) ≤ c.db) (hhigh : c.db < 2 ^ 63) :
    StoreUrl.ofText? c.redisUrl = some {
      user := none, password := c.password.filter (· ≠ "")
      host := c.host, port := c.port, db := c.db } := by
  have hdigits := digits_numeral c.port
  have hlocation := c.toList_location hname
  have hdb := db?_decimalInt hlow hhigh
  have hpath : ∀ ch ∈ (decimalInt c.db).toList, Plain ch := fun ch hch =>
    (plain_of_mem_decimalInt hch).1
  have hserver : ∀ ch ∈ c.host.toList ++ ':' :: numeral 10 c.port, ch = ':' ∨ Plain ch := by
    intro ch hch
    rw [List.mem_append, List.mem_cons] at hch
    rcases hch with hch | rfl | hch
    · exact .inr (hname.plain ch hch)
    · exact .inl rfl
    · exact .inr (plain_of_isDigit (hdigits.isDigit ch hch)).1
  have hat : '@' ∉ c.host.toList ++ ':' :: numeral 10 c.port := by
    intro h
    have := hserver _ h
    revert this
    decide
  have hhost : String.ofList c.host.toList = c.host := String.ofList_toList
  cases hpassword : c.password with
  | none =>
    have hurl : c.redisUrl = redisUrl { c with password := none } := by rw [← hpassword]
    have htext : c.redisUrl.toList = "redis://".toList ++
        (c.host.toList ++ ':' :: numeral 10 c.port ++ '/' :: (decimalInt c.db).toList) := by
      rw [hurl, toList_redisUrl_none, hlocation]
    rw [ofText?_of_parts htext (fun ch hch => .inr (hserver ch hch)) hpath
      (splitCredentials_of_not_mem hat) rfl rfl hname hdigits hport hdb, hhost]
    rfl
  | some p =>
    have hurl : c.redisUrl = redisUrl { c with password := some p } := by rw [← hpassword]
    have htext : c.redisUrl.toList = "redis://".toList ++
        (':' :: (percentEncode p).toList ++ '@' :: (c.host.toList ++ ':' :: numeral 10 c.port) ++
          '/' :: (decimalInt c.db).toList) := by
      rw [hurl, toList_redisUrl_some, hlocation]
      simp
    have hauthority : ∀ ch ∈ ':' :: (percentEncode p).toList ++
        '@' :: (c.host.toList ++ ':' :: numeral 10 c.port), Inner ch := by
      intro ch hch
      rw [List.mem_append, List.mem_cons, List.mem_cons] at hch
      rcases hch with (rfl | hch) | rfl | hch
      · decide
      · exact .inr (.inr (plain_of_mem_percentEncode hch))
      · decide
      · exact .inr (hserver ch hch)
    rw [ofText?_of_parts htext hauthority hpath (splitCredentials_append hat) rfl
      (credential?_percentEncode p) hname hdigits hport hdb, hhost]

end ClientConfig

end Muster
