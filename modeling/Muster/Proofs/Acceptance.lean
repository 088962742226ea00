import Mathlib.Data.List.Forall2
import Muster.Proofs.Endpoints

/-!
# Which settings are accepted

The settings that must have a form, in the order in which they are read (`settings`), and what it
means for one to have it (`Setting.Holds`). A client accepts its source if all of them hold, but for
the second name of the wait limit, which is not looked at where the first name sets one
(`Setting.IsRead`). Otherwise it complains of the first that is read and does not hold.
-/
namespace Muster

open Text

/-! ## Forms -/

/-- The letters of a word, small or capital. -/
def InAnyCase (word : String) (cs : List Char) : Prop :=
  List.Forall₂ (fun c l => c = l ∨ c = l.toUpper) cs word.toList

/-- What the text of a setting has to be. -/
inductive Form where
  | server
  /-- An integer of 64 bits. -/
  | integer
  | switch
  /-- A natural number of so many bits. -/
  | count (bits : Nat)
deriving DecidableEq

/-- A text has this form. -/
def Form.Fits : Form → List Char → Prop
  | server, cs => ∃ host port, ClientConfig.Endpoint host port cs
  | integer, cs => ∃ i : Int, Signed i cs ∧ -(2 ^ 63) ≤ i ∧ i < 2 ^ 63
  | switch, cs => InAnyCase "true" cs ∨ InAnyCase "false" cs
  | count bits, cs => ∃ n < 2 ^ bits, Unsigned n cs

structure Setting where
  name : String
  form : Form
  /-- It has to be there. -/
  required : Bool

namespace Setting

/-- The setting has its form, or it is not there and need not be. -/
def Holds (src : Source) (s : Setting) : Prop :=
  match src.setting? s.name with
  | none => s.required = false
  | some raw => s.form.Fits raw.toList

/-- The setting is looked at. -/
def IsRead (src : Source) (s : Setting) : Prop :=
  s.name = "timeout" → src.IsUnset "max.wait"

end Setting

def poolSettings : List Setting := [
  ⟨"max.total", .count 64, false⟩,
  ⟨"max.active", .count 64, false⟩,
  ⟨"max.wait", .count 64, false⟩,
  ⟨"timeout", .count 64, false⟩,
  ⟨"test.on.borrow", .switch, false⟩,
  ⟨"test.on.return", .switch, false⟩,
  ⟨"test.while.idle", .switch, false⟩,
  ⟨"max.idle", .count 64, false⟩,
  ⟨"min.idle", .count 64, false⟩,
  ⟨"num.tests.per.eviction.run", .count 32, false⟩,
  ⟨"time.between.eviction.runs.millis", .count 64, false⟩,
  ⟨"min.evictable.idle.time.millis", .count 64, false⟩]

def restartSettings : List Setting := [
  ⟨"restart.initial.millis", .count 64, false⟩,
  ⟨"restart.max.millis", .count 64, false⟩,
  ⟨"restart.max.attempts", .count 32, false⟩]

/-- The settings that must have a form, in the order in which they are read. -/
def settings : List Setting :=
  [⟨"serverAddr", .server, true⟩, ⟨"db", .integer, false⟩] ++ poolSettings ++ restartSettings

/-- The fault is about the configuration, and its text has the full name of the setting. -/
def Fault.Names (f : Fault) (name : String) : Prop :=
  ∃ before after, f = .configuration (before ++ (registryPrefix ++ name) ++ after)

theorem Source.bad_names (name expected raw : String) : (Source.bad name expected raw).Names name :=
  ⟨"", expected ++ "'" ++ raw ++ "'", by simp [Source.bad, String.append_assoc]⟩

/-! ## Checking settings -/

variable {α β : Type} {src : Source} {s : Setting} {ss ts : List Setting}

/-- The outcome of reading these settings: a value if all hold that are read, and otherwise a
complaint of the first that does not. -/
inductive Checks (src : Source) (ss : List Setting) : Except Fault α → Prop
  | passed {a : α} (all : ∀ s ∈ ss, s.IsRead src → s.Holds src) : Checks src ss (.ok a)
  | refused {f : Fault} {before after : List Setting} {s : Setting}
    (split : ss = before ++ s :: after)
    (first : ∀ t ∈ before, t.IsRead src → t.Holds src) (read : s.IsRead src)
    (fails : ¬ s.Holds src) (named : f.Names s.name) : Checks src ss (.error f)

namespace Checks

/-- One reading after another. -/
theorem bind {x : Except Fault α} {f : α → Except Fault β} (hx : Checks src ss x)
    (hf : ∀ a, x = .ok a → Checks src ts (f a)) : Checks src (ss ++ ts) (x >>= f) := by
  -- A refusal of the first reading is final; one of the second comes after all that the first read.
  cases hx with
  | @refused _ before after s hss hfirst hread hfails hnamed =>
    exact @Checks.refused _ _ _ _ before (after ++ ts) s (by simp [hss]) hfirst hread hfails hnamed
  | @passed a hall =>
    rw [ok_bind]
    have hrest := hf a rfl
    generalize f a = y at hrest
    cases hrest with
    | passed hall' => exact .passed fun t ht => (List.mem_append.1 ht).elim (hall t) (hall' t)
    | @refused _ before after s hts hfirst hread hfails hnamed =>
      refine @Checks.refused _ _ _ _ (ss ++ before) after s (by simp [hts]) (fun t ht => ?_) hread
        hfails hnamed
      exact (List.mem_append.1 ht).elim (hall t) (hfirst t)

theorem map {x : Except Fault α} (h : Checks src ss x) (f : α → β) : Checks src ss (x.map f) := by
  cases h with
  | passed hall => exact .passed hall
  | refused hss hfirst hread hfails hnamed => exact .refused hss hfirst hread hfails hnamed

theorem of_holds (h : s.Holds src) (a : α) : Checks src [s] (.ok a) := by
  refine .passed fun t ht _ => ?_
  rw [List.mem_singleton] at ht
  exact ht ▸ h

theorem of_not_holds {f : Fault} (hread : s.IsRead src) (h : ¬ s.Holds src)
    (hnamed : f.Names s.name) :
    Checks src [s] (.error f : Except Fault α) :=
  @Checks.refused _ _ _ _ [] [] s rfl (by simp) hread h hnamed

theorem accepted_iff {x : Except Fault α} (h : Checks src ss x) :
    (∃ a, x = .ok a) ↔ ∀ s ∈ ss, s.IsRead src → s.Holds src := by
  cases h with
  | @passed a hall => exact ⟨fun _ => hall, fun _ => ⟨a, rfl⟩⟩
  | @refused _ before after s hss _ hread hfails _ =>
    refine ⟨fun ⟨_, ha⟩ => (by cases ha), fun hall => ?_⟩
    exact absurd (hall s (by simp [hss]) hread) hfails

end Checks

theorem Setting.isRead_of_ne (h : s.name ≠ "timeout") : s.IsRead src := fun hname =>
  absurd hname h

theorem Setting.holds_of_some {name raw : String} {form : Form} {required : Bool}
    (h : src.setting? name = some raw) :
    Setting.Holds src ⟨name, form, required⟩ ↔ form.Fits raw.toList := by
  simp only [Holds, h]

/-! ## One setting -/

section

variable {name : String} {bits : Nat}

theorem Source.Gives.holds {n : Nat} (h : src.Gives name n) (hlt : n < 2 ^ bits) :
    Setting.Holds src ⟨name, .count bits, false⟩ := by
  obtain ⟨raw, hraw, hn⟩ := h
  rw [Setting.holds_of_some hraw]
  exact ⟨n, hlt, hn⟩

theorem Source.Gives.not_holds {n : Nat} (h : src.Gives name n) (hge : 2 ^ bits ≤ n) :
    ¬ Setting.Holds src ⟨name, .count bits, false⟩ := by
  obtain ⟨raw, hraw, hn⟩ := h
  rw [Setting.holds_of_some hraw]
  rintro ⟨m, hlt, hm⟩
  have := hn.unique hm
  omega

theorem Source.IsUnset.holds (h : src.IsUnset name) :
    Setting.Holds src ⟨name, .count bits, false⟩ := by
  rcases h with hnone | hzero
  · simp only [Setting.Holds, hnone]
  · exact hzero.holds (Nat.two_pow_pos bits)

/-- What is not a number of 64 bits is none of fewer bits either. -/
theorem not_holds_of_malformed {raw : String} (h : src.setting? name = some raw)
    (hno : ∀ n < 2 ^ 64, ¬ Unsigned n raw.toList) (hbits : bits ≤ 64) :
    ¬ Setting.Holds src ⟨name, .count bits, false⟩ := by
  have hmono : 2 ^ bits ≤ 2 ^ 64 := Nat.pow_le_pow_right (by decide) hbits
  rw [Setting.holds_of_some h]
  rintro ⟨n, hlt, hn⟩
  exact hno n (by omega) hn

/-- A count that is wanted in 64 bits. -/
theorem checks_count (hread : Setting.IsRead src ⟨name, .count 64, false⟩) :
    Checks src [⟨name, .count 64, false⟩] (src.count? name) := by
  have hcounted := src.counted name
  generalize src.count? name = x at hcounted
  cases hcounted with
  | unset h => exact .of_holds h.holds none
  | @number n h _ hhigh => exact .of_holds (h.holds hhigh) (some n)
  | malformed h hno =>
    exact .of_not_holds hread (not_holds_of_malformed h hno (Nat.le_refl 64))
      (Source.bad_names _ _ _)

theorem checks_millis (hread : Setting.IsRead src ⟨name, .count 64, false⟩) :
    Checks src [⟨name, .count 64, false⟩] (src.millis? name) :=
  (checks_count hread).map _

/-- A count that has to fit into fewer bits. -/
theorem checks_narrowCount (hbits : bits ≤ 64)
    (hread : Setting.IsRead src ⟨name, .count bits, false⟩) :
    Checks src [⟨name, .count bits, false⟩] (src.narrowCount? name bits) := by
  have hcounted := src.counted name
  unfold Source.narrowCount?
  generalize src.count? name = x at hcounted
  cases hcounted with
  | unset h => exact .of_holds h.holds none
  | malformed h hno =>
    exact .of_not_holds hread (not_holds_of_malformed h hno hbits) (Source.bad_names _ _ _)
  | @number n h _ _ =>
    rw [ok_bind]
    dsimp only
    split
    · next hlt => exact .of_holds (h.holds hlt) (some n)
    · next hge =>
      refine .of_not_holds hread (h.not_holds (Nat.not_lt.1 hge)) ?_
      exact ⟨"", " is out of range: " ++ decimal n, by simp [String.append_assoc]⟩

/-- The small letters are those from a to z. -/
theorem toLower_eq_iff {c l : Char} (h : l.isLower = true) :
    c.toLower = l ↔ c = l ∨ c = l.toUpper := by
  have hl : 97 ≤ l.toNat ∧ l.toNat ≤ 122 := by
    unfold Char.isLower at h
    simpa [UInt32.le_iff_toNat_le, ← Char.toNat_val] using h
  have hdown : c.toLower.toNat = if 65 ≤ c.toNat ∧ c.toNat ≤ 90 then c.toNat + 32 else c.toNat := by
    unfold Char.toLower
    split
    · next hc =>
      have hc : 65 ≤ c.toNat ∧ c.toNat ≤ 90 := hc
      have hsum : (c.val + 32).toNat = (c.toNat + 32) % 2 ^ 32 := UInt32.toNat_add _ _
      rw [if_pos hc]
      exact hsum.trans (by omega)
    · next hc => exact (if_neg hc).symm
  have hup : l.toUpper.toNat = l.toNat - 32 := by
    have hsum : (l.val + ('A'.val - 'a'.val)).toNat = (l.toNat + 4294967264) % 2 ^ 32 :=
      UInt32.toNat_add _ _
    unfold Char.toUpper
    rw [dif_pos ⟨hl.1, hl.2⟩]
    exact hsum.trans (by omega)
  -- Code points are compared: the small letters and the capitals are 32 apart.
  rw [← Char.toNat_inj, ← Char.toNat_inj, ← Char.toNat_inj, hdown, hup]
  split <;> omega

theorem map_toLower_eq_iff {word cs : List Char} (h : word.all Char.isLower = true) :
    cs.map Char.toLower = word ↔ List.Forall₂ (fun c l => c = l ∨ c = l.toUpper) cs word := by
  induction word generalizing cs with
  | nil => cases cs <;> simp
  | cons l word ih =>
    cases cs with
    | nil => simp
    | cons c cs =>
      rw [List.all_cons, Bool.and_eq_true] at h
      rw [List.map_cons, List.cons.injEq, List.forall₂_cons, toLower_eq_iff h.1, ih h.2]

theorem checks_flag (default : Bool) (hread : Setting.IsRead src ⟨name, .switch, false⟩) :
    Checks src [⟨name, .switch, false⟩] (src.flag name default) := by
  unfold Source.flag
  cases hsetting : src.setting? name with
  | none => exact .of_holds (by simp only [Setting.Holds, hsetting]) default
  | some raw =>
    have htrue : raw.toList.map Char.toLower = "true".toList ↔ InAnyCase "true" raw.toList :=
      map_toLower_eq_iff (by decide)
    have hfalse : raw.toList.map Char.toLower = "false".toList ↔ InAnyCase "false" raw.toList :=
      map_toLower_eq_iff (by decide)
    have hholds := @Setting.holds_of_some src name raw .switch false hsetting
    dsimp only
    split
    · next h => exact .of_holds (hholds.2 (.inl (htrue.1 h))) true
    · next hnot =>
      split
      · next h => exact .of_holds (hholds.2 (.inr (hfalse.1 h))) false
      · next hnot' =>
        refine .of_not_holds hread (fun h => ?_) (Source.bad_names _ _ _)
        rcases hholds.1 h with h | h
        · exact hnot (htrue.2 h)
        · exact hnot' (hfalse.2 h)

end

theorem names_of_parseServerAddr {raw : String} {f : Fault}
    (h : ClientConfig.parseServerAddr raw = .error f) : f.Names "serverAddr" := by
  unfold ClientConfig.parseServerAddr at h
  split at h
  · cases h
    exact Source.bad_names _ _ _
  · split at h
    · cases h
      exact ⟨"invalid port in ", ": '" ++ raw ++ "'",
        congrArg Fault.configuration (String.toList_inj.1 (by simp))⟩
    · dsimp only at h
      split at h
      · cases h
        exact ⟨"empty host in ", "", by simp [String.append_assoc]⟩
      · cases h

theorem checks_server : Checks src [⟨"serverAddr", .server, true⟩] src.server := by
  have hread : Setting.IsRead src ⟨"serverAddr", .server, true⟩ :=
    Setting.isRead_of_ne (by decide)
  unfold Source.server
  cases hsetting : src.setting? "serverAddr" with
  | none =>
    refine .of_not_holds hread (by simp [Setting.Holds, hsetting]) ?_
    exact ⟨"missing ", "", by simp [String.append_assoc]⟩
  | some raw =>
    have htrim : trim raw = raw := by
      obtain ⟨text, -, rfl⟩ := Option.map_eq_some_iff.1 hsetting
      exact trim_trim text
    have hholds := @Setting.holds_of_some src "serverAddr" raw .server true hsetting
    dsimp only
    cases hserver : ClientConfig.parseServerAddr raw with
    | ok server =>
      rw [ClientConfig.parseServerAddr_eq_ok_iff, htrim] at hserver
      exact .of_holds (hholds.2 ⟨_, _, hserver⟩) server
    | error f =>
      refine .of_not_holds hread (fun h => ?_) (names_of_parseServerAddr hserver)
      obtain ⟨host, port, h⟩ := hholds.1 h
      rw [← htrim] at h
      rw [ClientConfig.parseServerAddr_eq_ok_iff.2 h] at hserver
      cases hserver

theorem checks_database : Checks src [⟨"db", .integer, false⟩] src.database := by
  have hread : Setting.IsRead src ⟨"db", .integer, false⟩ := Setting.isRead_of_ne (by decide)
  unfold Source.database
  cases hsetting : src.setting? "db" with
  | none => exact .of_holds (by simp only [Setting.Holds, hsetting]) 0
  | some raw =>
    have hholds := @Setting.holds_of_some src "db" raw .integer false hsetting
    dsimp only
    cases hdb : signed? 64 raw with
    | some i => exact .of_holds (hholds.2 ⟨i, signed?_eq_some_iff.1 hdb⟩) i
    | none =>
      refine .of_not_holds hread (fun h => ?_) (Source.bad_names _ _ _)
      obtain ⟨i, hi⟩ := hholds.1 h
      rw [signed?_eq_some_iff.2 hi] at hdb
      cases hdb

/-- The second name of the wait limit is only looked at where the first sets none. -/
theorem checks_waitLimit {wait : Option Duration} (hwait : src.millis? "max.wait" = .ok wait) :
    Checks src [⟨"timeout", .count 64, false⟩] (src.waitLimit wait) := by
  unfold Source.millis? at hwait
  cases hcount : src.count? "max.wait" with
  | error f =>
    rw [hcount] at hwait
    cases hwait
  | ok n =>
    rw [hcount] at hwait
    cases hwait
    cases n with
    | none => exact checks_millis fun _ => Source.count?_eq_ok_none hcount
    | some n =>
      obtain ⟨hgives, hpos, -⟩ := Source.count?_eq_ok_some hcount
      refine .passed fun s hs hread => ?_
      rw [List.mem_singleton] at hs
      subst hs
      exact absurd (hread rfl) (hgives.not_isUnset hpos)

theorem checks_pool : Checks src poolSettings (PoolConfig.ofSource src) := by
  rw [PoolConfig.ofSource_eq]
  have hread {s : Setting} (h : s.name ≠ "timeout") : s.IsRead src := Setting.isRead_of_ne h
  refine (checks_count (hread (by decide))).bind fun total _ => ?_
  refine (checks_count (hread (by decide))).bind fun active _ => ?_
  refine (checks_millis (hread (by decide))).bind fun wait hwait => ?_
  refine (checks_waitLimit hwait).bind fun maxWait _ => ?_
  refine (checks_flag _ (hread (by decide))).bind fun testOnBorrow _ => ?_
  refine (checks_flag _ (hread (by decide))).bind fun testOnReturn _ => ?_
  refine (checks_flag _ (hread (by decide))).bind fun testWhileIdle _ => ?_
  refine (checks_narrowCount (by decide) (hread (by decide))).bind fun maxIdle _ => ?_
  refine (checks_narrowCount (by decide) (hread (by decide))).bind fun minIdle _ => ?_
  refine (checks_narrowCount (by decide) (hread (by decide))).bind fun tests _ => ?_
  refine (checks_millis (hread (by decide))).bind fun interval _ => ?_
  refine (checks_millis (hread (by decide))).bind fun evictable _ => ?_
  exact .passed (by simp)

theorem checks_restart : Checks src restartSettings (RestartPolicy.ofSource src) := by
  have hread {s : Setting} (h : s.name ≠ "timeout") : s.IsRead src := Setting.isRead_of_ne h
  refine (checks_millis (hread (by decide))).bind fun initial _ => ?_
  refine (checks_millis (hread (by decide))).bind fun longest _ => ?_
  refine (checks_narrowCount (by decide) (hread (by decide))).bind fun attempts _ => ?_
  exact .passed (by simp)

theorem checks_ofSource (self : String) (src : Source) :
    Checks src settings (ClientConfig.ofSource self src) := by
  rw [ClientConfig.ofSource_eq]
  refine checks_server.bind fun server _ => ?_
  refine checks_database.bind fun db _ => ?_
  refine checks_pool.bind fun pool _ => ?_
  refine checks_restart.bind fun restart _ => ?_
  exact .passed (by simp)

/-! ## All settings -/

/-- A source is accepted exactly if every setting that is read holds, and is otherwise refused with
a fault of the configuration, which names the first setting that is read and does not hold. -/
theorem accepted_iff_settings_hold (self : String) (src : Source) :
    ((∃ c, ClientConfig.ofSource self src = .ok c) ↔
      ∀ s ∈ settings, s.IsRead src → s.Holds src) ∧
    ∀ f, ClientConfig.ofSource self src = .error f →
      ∃ before s after, settings = before ++ s :: after ∧
        (∀ t ∈ before, t.IsRead src → t.Holds src) ∧ s.IsRead src ∧ ¬ s.Holds src ∧
        f.Names s.name := by
  have hchecks := checks_ofSource self src
  refine ⟨hchecks.accepted_iff, fun f hf => ?_⟩
  rw [hf] at hchecks
  cases hchecks with
  | refused hsplit hfirst hread hfails hnamed =>
    exact ⟨_, _, _, hsplit, hfirst, hread, hfails, hnamed⟩

/-- A word where the wait limit is wanted is accepted under the second name, if the first name sets
the limit. -/
theorem malformed_timeout_accepted :
    let src := Source.ofTable (.ofList [("registry.redis.serverAddr", "h:1"),
      ("registry.redis.max.wait", "200"), ("registry.redis.timeout", "soon")])
    ClientConfig.ofSource "1@host" src =
      .ok {
        host := "h", port := 1, identity := "1@host"
        pool := { maxWait := some (.ofMillis 200) } } ∧
    ⟨"timeout", .count 64, false⟩ ∈ settings ∧
    ¬ Setting.Holds src ⟨"timeout", .count 64, false⟩ := by
  intro src
  refine ⟨rfl, by simp [settings, poolSettings], fun hholds => ?_⟩
  have hraw : src.setting? "timeout" = some "soon" := rfl
  obtain ⟨n, hlt, hn⟩ := (Setting.holds_of_some hraw).1 hholds
  have hnone : unsigned? (2 ^ 64) "soon" = none := rfl
  exact unsigned?_eq_none_iff.1 hnone n hlt hn

end Muster
