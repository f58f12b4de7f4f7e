import Mathlib.Data.List.Nodup
import Watchtower.AutoClaude
import Watchtower.CivilTime
import Watchtower.Foundation.Text

/-!
# Incident slugs

A slug is the time in whole seconds, the rule and the key with every character but the
ASCII letters and digits written as an underscore. Neither the rules nor such a key has a
hyphen, so the parts of a slug can be told apart.
-/

namespace Watchtower.AutoClaude

open Chrono Classify Machine Parse Text TimedLog

section CompactTime

/-- What comes behind the year, in twelve characters. -/
def clockText (c : Civil) : List Char :=
  (padded 2 c.month).toList ++ ((padded 2 c.day).toList ++ ('T' :: ((padded 2 c.hour).toList ++
    ((padded 2 c.minute).toList ++ ((padded 2 c.second).toList ++ ['Z'])))))

theorem compactTime_toList (t : DateTime) :
    (compactTime t).toList = (yearText t.civil.year).toList ++ clockText t.civil := by
  simp [compactTime, clockText]

theorem clockText_length {c : Civil} (proper : c.Proper) : (clockText c).length = 12 := by
  obtain ⟨⟨_, hmonth⟩, ⟨_, hday⟩, hhour, hminute, hsecond, _⟩ := proper
  simp only [clockText, List.length_append, List.length_cons, List.length_nil]
  rw [padded_length_two (by omega), padded_length_two (by omega), padded_length_two (by omega),
    padded_length_two (by omega), padded_length_two (by omega)]

/-- The time of a slug is that of its second. -/
theorem compactTime_eq_iff (t t' : DateTime) :
    compactTime t = compactTime t' ↔ t.timestamp = t'.timestamp := by
  rw [← sameSecond_iff]
  constructor
  · intro h
    have hlist := congrArg String.toList h
    have proper := t.civil_proper
    have proper' := t'.civil_proper
    have hlength : (clockText t.civil).length = (clockText t'.civil).length := by
      rw [clockText_length proper, clockText_length proper']
    rw [compactTime_toList, compactTime_toList] at hlist
    obtain ⟨hyear, hclock⟩ := List.append_inj' hlist hlength
    obtain ⟨⟨_, hmonth⟩, ⟨_, hday⟩, hhour, hminute, hsecond, _⟩ := proper
    obtain ⟨⟨_, hmonth'⟩, ⟨_, hday'⟩, hhour', hminute', hsecond', _⟩ := proper'
    obtain ⟨month, hclock⟩ := padded_two_inj (by omega) (by omega) hclock
    obtain ⟨day, hclock⟩ := padded_two_inj (by omega) (by omega) hclock
    obtain ⟨hour, hclock⟩ := padded_two_inj (by omega) (by omega) (List.cons.inj hclock).2
    obtain ⟨minute, hclock⟩ := padded_two_inj (by omega) (by omega) hclock
    obtain ⟨second, _⟩ := padded_two_inj (by omega) (by omega) hclock
    exact ⟨yearText_inj hyear, month, day, hour, minute, second⟩
  · rintro ⟨year, month, day, hour, minute, second⟩
    simp only [compactTime, year, month, day, hour, minute, second]

variable {t : DateTime} (year : 0 ≤ t.civil.year ∧ t.civil.year ≤ 9999)
include year

theorem compactTime_length : (compactTime t).toList.length = 16 := by
  have hyear : t.civil.year.toNat < 10 ^ 4 := by omega
  rw [compactTime_toList, List.length_append, clockText_length t.civil_proper,
    yearText_of_four year, padded_length (by decide) hyear]

theorem compactTime_alphanum : ∀ c ∈ (compactTime t).toList, c.isAlphanum = true := by
  have hdigits : ∀ width n, ∀ c ∈ (padded width n).toList, c.isAlphanum = true :=
    fun width n c hc => by rw [Char.isAlphanum, padded_digits width n c hc, Bool.or_true]
  intro c hc
  rw [compactTime_toList, yearText_of_four year] at hc
  simp only [clockText, List.mem_append, List.mem_cons, List.not_mem_nil, or_false] at hc
  rcases hc with h | h | h | rfl | h | h | h | rfl
  · exact hdigits _ _ c h
  · exact hdigits _ _ c h
  · exact hdigits _ _ c h
  · decide
  · exact hdigits _ _ c h
  · exact hdigits _ _ c h
  · exact hdigits _ _ c h
  · decide

end CompactTime

section Parts

/-- The characters of a rule's name and of a key in a slug. -/
def wordChar (c : Char) : Bool := c.isAlphanum || c == '_'

theorem name_word {rule : Rule} (mem : rule ∈ builtinRules) :
    ∀ c ∈ rule.name.toList, wordChar c = true := by
  have hall : builtinRules.all fun rule => rule.name.toList.all wordChar := by decide
  exact fun c => List.all_eq_true.mp (List.all_eq_true.mp hall rule mem) c

theorem safeKey_word (key : String) : ∀ c ∈ (safeKey key).toList, wordChar c = true := by
  intro c hc
  rw [safeKey, String.toList_ofList, List.mem_map] at hc
  obtain ⟨d, _, rfl⟩ := hc
  split
  · next halpha => rw [wordChar, halpha, Bool.true_or]
  · decide

theorem hyphen_of_word {text : List Char} (word : ∀ c ∈ text, wordChar c = true) :
    '-' ∉ text := fun h => absurd (word '-' h) (by decide)

/-- Two keys agree wherever one of them has a letter or a digit. -/
def ReadAlike (key key' : String) : Prop :=
  List.Forall₂ (fun c d => c = d ∨ (c.isAlphanum = false ∧ d.isAlphanum = false))
    key.toList key'.toList

theorem safeChar_eq_iff (c d : Char) :
    (if c.isAlphanum then c else '_') = (if d.isAlphanum then d else '_') ↔
      c = d ∨ (c.isAlphanum = false ∧ d.isAlphanum = false) := by
  have hunderscore : Char.isAlphanum '_' = false := by decide
  cases hc : c.isAlphanum with
  | true =>
    cases hd : d.isAlphanum with
    | true => simp
    | false =>
      have hne : c ≠ '_' := fun h => by simp [h, hunderscore] at hc
      have hcd : c ≠ d := fun h => by simp [h, hd] at hc
      simp [hne, hcd]
  | false =>
    cases hd : d.isAlphanum with
    | true =>
      have hne : '_' ≠ d := fun h => by simp [← h, hunderscore] at hd
      have hcd : c ≠ d := fun h => by simp [h, hd] at hc
      simp [hne, hcd]
    | false => simp

theorem safeKey_eq_iff (key key' : String) : safeKey key = safeKey key' ↔ ReadAlike key key' := by
  rw [safeKey, safeKey, String.ofList_inj, ← List.forall₂_eq_eq_eq, List.forall₂_map_left_iff,
    List.forall₂_map_right_iff, ReadAlike]
  simp only [safeChar_eq_iff]

theorem incidentSlug_toList (alert : Alert) : (incidentSlug alert).toList =
    ((compactTime alert.firedAt).toList ++ '-' :: alert.rule.toList) ++
      '-' :: (safeKey alert.key).toList := by
  simp [incidentSlug]

/-- Two slugs are the same only if each of their parts is. -/
theorem incidentSlug_eq_iff {first second : Alert} (hfirst : '-' ∉ first.rule.toList)
    (hsecond : '-' ∉ second.rule.toList) : incidentSlug first = incidentSlug second ↔
      first.firedAt.timestamp = second.firedAt.timestamp ∧ first.rule = second.rule ∧
        ReadAlike first.key second.key := by
  rw [← compactTime_eq_iff, ← safeKey_eq_iff]
  constructor
  · intro h
    have hlist := congrArg String.toList h
    rw [incidentSlug_toList, incidentSlug_toList] at hlist
    obtain ⟨hfront, hkey⟩ := append_last_separator_inj
      (hyphen_of_word (safeKey_word _)) (hyphen_of_word (safeKey_word _)) hlist
    obtain ⟨htime, hrule⟩ := append_last_separator_inj hfirst hsecond hfront
    exact ⟨String.toList_injective htime, String.toList_injective hrule,
      String.toList_injective hkey⟩
  · rintro ⟨htime, hrule, hkey⟩
    rw [incidentSlug, incidentSlug, htime, hrule, hkey]

end Parts

section Unique

/-- Two alerts of one rule fall into one second, with keys that differ and read alike. -/
structure Clash (first second : Alert) : Prop where
  rule : first.rule = second.rule
  time : first.firedAt.timestamp = second.firedAt.timestamp
  keys_differ : first.key ≠ second.key
  keys_alike : ReadAlike first.key second.key

theorem rule_no_hyphen {calls : List Call} {alert : Alert}
    (mem : alert ∈ Classifier.new.alerts calls) : '-' ∉ alert.rule.toList := by
  obtain ⟨rule, hrule, hname⟩ := rule_of_mem_alerts builtinTable mem
  rw [hname]
  exact hyphen_of_word (name_word hrule)

theorem second_le_cooldown {rule : Rule} (mem : rule ∈ builtinRules) :
    1000000000 ≤ rule.cooldown := by
  revert rule
  decide

theorem timestamp_ne_of_spaced {gap t t' : Int} (h : 1000000000 ≤ gap) (spaced : t + gap ≤ t') :
    t / 1000000000 ≠ t' / 1000000000 := by
  omega

/-- The cooldown keeps the alerts of a pair in different seconds. -/
theorem timestamp_ne_of_pair {calls : List Call} {first second : Alert}
    (sublist : [first, second].Sublist (Classifier.new.alerts calls))
    (hrule : first.rule = second.rule) (hkey : first.key = second.key) :
    first.firedAt.timestamp ≠ second.firedAt.timestamp := by
  obtain ⟨rule, mem, hname⟩ := rule_of_mem_alerts builtinTable
    (sublist.subset List.mem_cons_self)
  have hfor : [first, second].filter (Alert.isFor rule first.key) = [first, second] := by
    simp [Alert.isFor, hname, ← hrule, ← hkey]
  have htimes := (sublist.filter (Alert.isFor rule first.key)).map Alert.firedAt
  rw [hfor] at htimes
  have hspaced := bucketAlerts_spaced rule first.key (rule.hits first.key calls)
  rw [← firedTimes_eq calls mem] at hspaced
  have hpair := (hspaced.pairwise (Int.le_of_lt (builtinTable.cooldown_pos rule mem))).sublist
    htimes
  exact timestamp_ne_of_spaced (second_le_cooldown mem)
    (List.rel_of_pairwise_cons hpair List.mem_cons_self)

/-- The slugs of a run differ unless two alerts clash. -/
theorem slugs_unique_iff (calls : List Call) :
    ((Classifier.new.alerts calls).map incidentSlug).Nodup ↔
      ∀ first ∈ Classifier.new.alerts calls, ∀ second ∈ Classifier.new.alerts calls,
        ¬ Clash first second := by
  constructor
  · intro nodup first hfirst second hsecond clash
    have hslug := (incidentSlug_eq_iff (rule_no_hyphen hfirst) (rule_no_hyphen hsecond)).mpr
      ⟨clash.time, clash.rule, clash.keys_alike⟩
    have hsame := List.inj_on_of_nodup_map nodup hfirst hsecond hslug
    exact clash.keys_differ (congrArg Alert.key hsame)
  · intro apart
    rw [List.Nodup, List.pairwise_map, List.pairwise_iff_forall_sublist]
    intro first second sublist hslug
    have hfirst := sublist.subset List.mem_cons_self
    have hsecond := sublist.subset (List.mem_cons_of_mem first List.mem_cons_self)
    obtain ⟨htime, hrule, halike⟩ :=
      (incidentSlug_eq_iff (rule_no_hyphen hfirst) (rule_no_hyphen hsecond)).mp hslug
    by_cases hkey : first.key = second.key
    · exact timestamp_ne_of_pair sublist hrule hkey htime
    · exact apart first hfirst second hsecond ⟨hrule, htime, hkey, halike⟩

end Unique

section ErrorLines
variable {chain : String} (token : IsToken chain.toList)

def errorHeader : Header where
  time := "4:01:07 PM"
  level := "ERROR"
  source := "api"
  chain := chain
  rid := "9f3c2e"
  time_ne := by decide
  time_clean := List.all_eq_true.mp (by decide)
  level_ne := by decide
  level_letters := List.all_eq_true.mp (by decide)
  source_ne := by decide
  source_clean := List.all_eq_true.mp (by decide)
  chain_token := token
  rid_token := isToken_of_all (by decide) (by decide)

/-- `[4:01:07 PM] [ERROR] [api] chain=<chain> rid=9f3c2e step=connect refused` -/
def errorLine : String := (errorHeader token).text ++ "connect" ++ " refused"

def errorEvent : StructuredEvent :=
  (errorHeader token).event .ascii (errorLine token)
    ((errorHeader token).fields ++ "connect" ++ trimEnd " refused")

theorem parseLine_errorLine : parseLine .ascii (errorLine token) = .structured (errorEvent token) :=
  parseLine_header .ascii (errorHeader token) ⟨"connec".toList, 't', by decide, by decide⟩
    (by decide)

theorem errorEvent_level : (errorEvent token).level = .error := by
  have hname : (errorHeader token).level = "ERROR" := rfl
  have hlevel : (errorEvent token).level = Level.parse (errorHeader token).level := rfl
  rw [hlevel, hname]
  decide

theorem errorEvent_chain : (errorEvent token).chain = some chain := rfl

theorem errorEvent_key : errorBaselinePerChain.matchesKey (errorEvent token) = some chain := by
  simp [errorBaselinePerChain, errorEvent_level, errorEvent_chain]

/-- The first error of a chain is an alert. -/
def errorAlert (now : DateTime) : Alert :=
  firstAlert errorBaselinePerChain chain (errorEvent token) now

theorem errorAlert_mem (calls : List Call) (now : DateTime)
    (only : errorBaselinePerChain.hits chain calls = [(now, errorEvent token)]) :
    errorAlert token now ∈ Classifier.new.alerts calls :=
  firstAlert_mem (List.mem_cons_of_mem _ (List.mem_cons_of_mem _ List.mem_cons_self)) le_rfl only

end ErrorLines

theorem hyphen_token : IsToken "db-main".toList := isToken_of_all (by decide) (by decide)

theorem underscore_token : IsToken "db_main".toList := isToken_of_all (by decide) (by decide)

/-- Two chains that a slug does not tell apart fail in one second. -/
theorem chains_share_slug : ¬ ∀ (u : UnicodeClasses) (messages : List (String × DateTime)),
    Sorted Prod.snd messages →
    ((Classifier.new.alerts (parsedCalls u messages)).map incidentSlug).Nodup := by
  intro all
  have nodup := all .ascii [(errorLine hyphen_token, 0), (errorLine underscore_token, 0)]
    (by simp [Sorted])
  rw [parsedCalls, List.map_cons, List.map_singleton, parseLine_errorLine,
    parseLine_errorLine] at nodup
  have hhyphen := errorAlert_mem hyphen_token
    [⟨.structured (errorEvent hyphen_token), 0⟩, ⟨.structured (errorEvent underscore_token), 0⟩] 0
    (by simp [Rule.hits, Rule.hit, errorEvent_key])
  have hunderscore := errorAlert_mem underscore_token
    [⟨.structured (errorEvent hyphen_token), 0⟩, ⟨.structured (errorEvent underscore_token), 0⟩] 0
    (by simp [Rule.hits, Rule.hit, errorEvent_key])
  have hsame := List.inj_on_of_nodup_map nodup hhyphen hunderscore (by decide)
  exact absurd (congrArg Alert.key hsame) (by decide)

section Names

/-- One component of a path, and neither the directory itself nor the one above. -/
structure IsComponent (name : String) : Prop where
  nonempty : name ≠ ""
  no_slash : '/' ∉ name.toList
  not_dot : name ≠ "."
  not_dots : name ≠ ".."

/-- A name of letters, digits, hyphens and underscores up to its ending, short enough for a
directory entry, that stays in any directory it is joined to. -/
structure ValidLogName (name : String) : Prop where
  component : IsComponent name
  letters : ∃ stem, name = stem ++ ".log" ∧
    ∀ c ∈ stem.toList, c.isAlphanum = true ∨ c = '-' ∨ c = '_'
  inside : ∀ base, ∃ gap, (gap = "" ∨ gap = "/") ∧ join base name = base ++ gap ++ name
  fits : name.utf8ByteSize ≤ 255

theorem join_component {name : String} (component : IsComponent name) (base : String) :
    ∃ gap, (gap = "" ∨ gap = "/") ∧ join base name = base ++ gap ++ name := by
  have hhead : name.toList.head? ≠ some '/' := fun h =>
    component.no_slash (List.mem_of_mem_head? h)
  rw [join, if_neg hhead]
  split
  · exact ⟨"", .inl rfl, by rw [String.append_empty]⟩
  · exact ⟨"/", .inr rfl, rfl⟩

variable {alert : Alert}

theorem incidentSlug_fieldChar (year : 0 ≤ alert.firedAt.civil.year ∧
    alert.firedAt.civil.year ≤ 9999) (named : ∀ c ∈ alert.rule.toList, wordChar c = true) :
    ∀ c ∈ (incidentSlug alert).toList, fieldChar c = true := by
  have hword : ∀ c, wordChar c = true → fieldChar c = true := fun c h => by
    rw [fieldChar, ← wordChar, h, Bool.true_or]
  intro c hc
  rw [incidentSlug_toList] at hc
  simp only [List.mem_append, List.mem_cons] at hc
  rcases hc with (h | rfl | h) | rfl | h
  · rw [fieldChar, compactTime_alphanum year c h, Bool.true_or, Bool.true_or]
  · decide
  · exact hword c (named c h)
  · decide
  · exact hword c (safeKey_word alert.key c h)

/-- Sixteen characters of time, two hyphens, the ending, the rule and the key. -/
theorem logName_size (year : 0 ≤ alert.firedAt.civil.year ∧ alert.firedAt.civil.year ≤ 9999)
    (named : ∀ c ∈ alert.rule.toList, wordChar c = true) :
    (incidentSlug alert ++ ".log").utf8ByteSize = alert.rule.length + alert.key.length + 22 := by
  have hascii : ∀ c ∈ (incidentSlug alert).toList, c.toNat ≤ 127 := fun c hc =>
    Nat.le_trans (fieldChar_range (incidentSlug_fieldChar year named c hc)).2 (by decide)
  have hkey : (safeKey alert.key).toList.length = alert.key.length := by
    rw [safeKey, String.toList_ofList, List.length_map, String.length_toList]
  have hending : ".log".utf8ByteSize = 4 := by decide
  rw [String.utf8ByteSize_append, hending, ← String.ofList_toList (s := incidentSlug alert),
    utf8ByteSize_ofList, byteLen_of_ascii hascii, incidentSlug_toList]
  simp only [List.length_append, List.length_cons, compactTime_length year, hkey,
    String.length_toList]
  omega

theorem logName_component (year : 0 ≤ alert.firedAt.civil.year ∧
    alert.firedAt.civil.year ≤ 9999) (named : ∀ c ∈ alert.rule.toList, wordChar c = true) :
    IsComponent (incidentSlug alert ++ ".log") := by
  have hsize := logName_size year named
  have hfar : ∀ short : String, short.utf8ByteSize ≤ 2 → incidentSlug alert ++ ".log" ≠ short := by
    rintro short hshort rfl
    omega
  refine ⟨hfar "" (by decide), ?_, hfar "." (by decide), hfar ".." (by decide)⟩
  intro hslash
  rw [String.toList_append, List.mem_append] at hslash
  rcases hslash with h | h
  · exact absurd (incidentSlug_fieldChar year named '/' h) (by decide)
  · exact absurd h (by decide)

/-- Any alert has one component of the allowed letters for a name; whether it fits is a
matter of the rule and the key. -/
theorem validLogName_iff (u : UnicodeClasses) (messages : List (String × DateTime))
    (alert : Alert) (mem : alert ∈ Classifier.new.alerts (parsedCalls u messages))
    (year : 0 ≤ alert.firedAt.civil.year ∧ alert.firedAt.civil.year ≤ 9999) :
    ValidLogName (incidentSlug alert ++ ".log") ↔
      alert.rule.length + alert.key.length ≤ 233 := by
  obtain ⟨rule, hrule, hname⟩ := rule_of_mem_alerts builtinTable mem
  have named : ∀ c ∈ alert.rule.toList, wordChar c = true := hname ▸ name_word hrule
  have hsize := logName_size year named
  have component := logName_component year named
  constructor
  · intro valid
    have hfits := valid.fits
    omega
  · intro hshort
    refine ⟨component, ⟨incidentSlug alert, rfl, fun c hc => ?_⟩, join_component component, ?_⟩
    · have hchar := incidentSlug_fieldChar year named c hc
      simp only [fieldChar, Bool.or_eq_true, beq_iff_eq] at hchar
      rcases hchar with (h | h) | h
      · exact .inl h
      · exact .inr (.inr h)
      · exact .inr (.inl h)
    · omega

end Names

theorem errorAlert_mem_parsed {chain : String} (token : IsToken chain.toList) (now : DateTime) :
    errorAlert token now ∈ Classifier.new.alerts
      (parsedCalls .ascii [(errorLine token, now)]) := by
  rw [parsedCalls, List.map_singleton, parseLine_errorLine]
  exact errorAlert_mem token _ now (by simp [Rule.hits, Rule.hit, errorEvent_key])

theorem epoch_year : 0 ≤ (DateTime.civil 0).year ∧ (DateTime.civil 0).year ≤ 9999 := by decide

theorem validLogName_iff_short :
    ValidLogName (incidentSlug (errorAlert hyphen_token 0) ++ ".log") :=
  (validLogName_iff .ascii [(errorLine hyphen_token, 0)] (errorAlert hyphen_token 0)
    (errorAlert_mem_parsed hyphen_token 0) epoch_year).mpr (by decide)

/-- A chain of any length is taken from a line. -/
def longChain (letters : Nat) : String := String.ofList (List.replicate (letters + 1) 'a')

theorem longChain_token (letters : Nat) : IsToken (longChain letters).toList := by
  rw [longChain, String.toList_ofList]
  refine ⟨List.replicate_succ_ne_nil, fun c hc => ?_⟩
  rw [List.eq_of_mem_replicate hc]
  decide

theorem longChain_size (letters : Nat) :
    (incidentSlug (errorAlert (longChain_token letters) 0) ++ ".log").utf8ByteSize =
      letters + 47 := by
  have hrule : errorBaselinePerChain ∈ builtinRules := by simp [builtinRules]
  have hname : (errorAlert (longChain_token letters) 0).rule.length = 24 :=
    (by decide : "error_baseline_per_chain".length = 24)
  have hlength : (longChain letters).length = letters + 1 := by
    rw [longChain, String.length_ofList, List.length_replicate]
  have hkey : (errorAlert (longChain_token letters) 0).key.length = letters + 1 := hlength
  have hfired : (errorAlert (longChain_token letters) 0).firedAt = 0 := rfl
  have named : ∀ c ∈ (errorAlert (longChain_token letters) 0).rule.toList, wordChar c = true :=
    name_word hrule
  have hsize := logName_size (hfired ▸ epoch_year) named
  rw [hsize, hname, hkey]
  omega

theorem long_chain_name_too_long :
    ¬ ∀ (u : UnicodeClasses) (messages : List (String × DateTime)) (alert : Alert),
      alert ∈ Classifier.new.alerts (parsedCalls u messages) →
      0 ≤ alert.firedAt.civil.year ∧ alert.firedAt.civil.year ≤ 9999 →
      ValidLogName (incidentSlug alert ++ ".log") := by
  intro all
  have valid := all .ascii [(errorLine (longChain_token 209), 0)]
    (errorAlert (longChain_token 209) 0) (errorAlert_mem_parsed (longChain_token 209) 0) epoch_year
  have hfits := valid.fits
  rw [longChain_size] at hfits
  exact absurd hfits (by decide)

end Watchtower.AutoClaude
