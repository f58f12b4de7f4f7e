import Watchtower.CivilTime
import Watchtower.Email
import Watchtower.Foundation.Text
import Watchtower.Journal

/-!
# The logger sink

`LoggerSink::dispatch` writes an alert as one JSON object. The derived `Serialize` of
`AlertOut` gives the fields in their order, and has no way to fail. What is logged
determines the alert up to the parts of the sample that are not in the record.
-/

namespace Watchtower.Chrono

open Text

section Rfc3339

theorem fraction_parts {nanos : Nat} (h : nanos < 1000000000) :
    fractionText nanos = "" ∧ nanos = 0 ∨
      ∃ digits part scale, fractionText nanos = "." ++ padded digits part ∧
        nanos = part * scale ∧ 0 < nanos ∧ 0 < digits ∧ part < 10 ^ digits ∧
        10 ^ digits * scale = 1000000000 := by
  rw [fractionText]
  by_cases hzero : nanos = 0
  · exact .inl ⟨if_pos hzero, hzero⟩
  · right
    rw [if_neg hzero]
    split
    · exact ⟨3, nanos / 1000000, 1000000, rfl, by omega, by omega, by decide, by omega,
        by decide⟩
    · split
      · exact ⟨6, nanos / 1000, 1000, rfl, by omega, by omega, by decide, by omega, by decide⟩
      · exact ⟨9, nanos, 1, rfl, by omega, by omega, by decide, by omega, by decide⟩

/-- The digits of a fraction and their number determine the nanoseconds. -/
theorem fractionText_inj {nanos nanos' : Nat} (h : nanos < 1000000000)
    (h' : nanos' < 1000000000) (same : fractionText nanos = fractionText nanos') :
    nanos = nanos' := by
  rcases fraction_parts h with ⟨htext, hzero⟩ | ⟨digits, part, scale, htext, hnanos, _, hdigits,
    hpart, hscale⟩
  · rcases fraction_parts h' with ⟨_, hzero'⟩ | ⟨_, _, _, htext', _⟩
    · exact hzero.trans hzero'.symm
    · rw [htext, htext'] at same
      exact absurd (String.append_eq_empty_iff.mp same.symm).1 (by decide)
  · rcases fraction_parts h' with ⟨htext', _⟩ | ⟨digits', part', scale', htext', hnanos', _,
      hdigits', hpart', hscale'⟩
    · rw [htext, htext'] at same
      exact absurd (String.append_eq_empty_iff.mp same).1 (by decide)
    · rw [htext, htext', String.append_right_inj] at same
      have hlist := congrArg String.toList same
      have hlength := congrArg List.length hlist
      rw [padded_length hdigits hpart, padded_length hdigits' hpart'] at hlength
      subst hlength
      have hsame : scale = scale' := by
        have hpow : 0 < 10 ^ digits := Nat.pow_pos (by decide)
        exact Nat.eq_of_mul_eq_mul_left hpow (hscale.trans hscale'.symm)
      rw [hnanos, hnanos', padded_inj hlist, hsame]

theorem DateTime.eq_of_civil {t t' : DateTime} (same : t.civil.SameSecond t'.civil)
    (nanos : t.civil.nanos = t'.civil.nanos) : t = t' := by
  have hsecond : t / 1000000000 = t' / 1000000000 := (sameSecond_iff t t').mp same
  have hnanos : (t % 86400000000000).toNat % 1000000000 =
      (t' % 86400000000000).toNat % 1000000000 := nanos
  have hdivides : ∀ n : Int, ((n % 86400000000000).toNat % 1000000000 : Nat) =
      n % 1000000000 := by
    intro n
    omega
  have hrest : t % 1000000000 = t' % 1000000000 := by
    rw [← hdivides, ← hdivides, hnanos]
  rw [← Int.ediv_mul_add_emod t 1000000000, hsecond, hrest, Int.ediv_mul_add_emod]

/-- The date of a time and what comes behind it. -/
theorem toRfc3339_toList (t : DateTime) : t.toRfc3339.toList =
    ((yearText t.civil.year).toList ++ ('-' :: (padded 2 t.civil.month).toList ++
      '-' :: (padded 2 t.civil.day).toList)) ++ 'T' :: ((padded 2 t.civil.hour).toList ++
      (':' :: (padded 2 t.civil.minute).toList ++ (':' :: (padded 2 t.civil.second).toList ++
        ((fractionText t.civil.nanos).toList ++ "+00:00".toList)))) := by
  simp [DateTime.toRfc3339]

theorem no_T_of_digits {text : List Char} (digits : ∀ c ∈ text, c.isDigit = true) :
    'T' ∉ text := fun h => absurd (digits 'T' h) (by decide)

theorem no_T_fraction (nanos : Nat) : 'T' ∉ (fractionText nanos).toList := by
  have hdot : ∀ digits part, 'T' ∉ ("." ++ padded digits part).toList := by
    intro digits part h
    rw [String.toList_append, List.mem_append] at h
    rcases h with h | h
    · exact absurd h (by decide)
    · exact no_T_of_digits (padded_digits _ _) h
  rw [fractionText]
  split
  · exact List.not_mem_nil
  · split
    · exact hdot _ _
    · split
      · exact hdot _ _
      · exact hdot _ _

theorem no_T_clock (c : Civil) : 'T' ∉ (padded 2 c.hour).toList ++
    (':' :: (padded 2 c.minute).toList ++ (':' :: (padded 2 c.second).toList ++
      ((fractionText c.nanos).toList ++ "+00:00".toList))) := by
  have hzone : 'T' ∉ "+00:00".toList := by decide
  simp only [List.mem_append, List.mem_cons, not_or, List.cons_append]
  exact ⟨no_T_of_digits (padded_digits _ _), by decide, no_T_of_digits (padded_digits _ _),
    by decide, no_T_of_digits (padded_digits _ _), no_T_fraction _, hzone⟩

/-- A time is determined by its text. -/
theorem toRfc3339_inj {t t' : DateTime} (same : t.toRfc3339 = t'.toRfc3339) : t = t' := by
  have hlist := congrArg String.toList same
  rw [toRfc3339_toList, toRfc3339_toList] at hlist
  obtain ⟨hdate, hclock⟩ := append_last_separator_inj (no_T_clock _) (no_T_clock _) hlist
  obtain ⟨⟨_, hmonth⟩, ⟨_, hday⟩, hhour, hminute, hsecond, hnanos⟩ := t.civil_proper
  obtain ⟨⟨_, hmonth'⟩, ⟨_, hday'⟩, hhour', hminute', hsecond', hnanos'⟩ := t'.civil_proper
  obtain ⟨hyear, hrest⟩ := List.append_inj' hdate (by
    simp only [List.length_append, List.length_cons]
    rw [padded_length_two (by omega), padded_length_two (by omega),
      padded_length_two (by omega), padded_length_two (by omega)])
  obtain ⟨month, hrest⟩ := padded_two_inj (by omega) (by omega) (List.cons.inj hrest).2
  have hdays : (padded 2 t.civil.day).toList ++ [] = (padded 2 t'.civil.day).toList ++ [] := by
    rw [List.append_nil, List.append_nil, (List.cons.inj hrest).2]
  obtain ⟨day, _⟩ := padded_two_inj (by omega) (by omega) hdays
  obtain ⟨hour, hclock⟩ := padded_two_inj (by omega) (by omega) hclock
  obtain ⟨minute, hclock⟩ := padded_two_inj (by omega) (by omega) (List.cons.inj hclock).2
  obtain ⟨second, hclock⟩ := padded_two_inj (by omega) (by omega) (List.cons.inj hclock).2
  have hfraction := List.append_cancel_right hclock
  exact DateTime.eq_of_civil ⟨yearText_inj hyear, month, day, hour, minute, second⟩
    (fractionText_inj hnanos hnanos' (String.toList_injective hfraction))

end Rfc3339

end Watchtower.Chrono

namespace Watchtower.Logger

open Chrono Classify Email Journal Parse

/-- `sampleEvent.as_ref().and_then(..)` and so on: the parts of an alert that are logged. -/
structure AlertOut where
  severity : String
  rule : String
  key : String
  count : Nat
  windowSecs : Int
  firedAtRfc3339 : String
  sampleChain : Option String
  sampleRid : Option String
  sampleStep : Option String
  sampleMessage : Option String
  deriving DecidableEq, Repr

def severityText : Severity → String
  | .info => "info"
  | .warn => "warn"
  | .page => "page"

def AlertOut.ofAlert (alert : Alert) : AlertOut where
  severity := severityText alert.severity
  rule := alert.rule
  key := alert.key
  count := alert.count
  windowSecs := alert.windowSecs
  firedAtRfc3339 := alert.firedAt.toRfc3339
  sampleChain := alert.sampleEvent.bind StructuredEvent.chain
  sampleRid := alert.sampleEvent.bind StructuredEvent.rid
  sampleStep := alert.sampleEvent.bind StructuredEvent.step
  sampleMessage := alert.sampleEvent.map StructuredEvent.message

/-- The derived `Serialize` of an `Option<&str>`. -/
def optionJson : Option String → Json
  | none => .null
  | some text => .str text

/-- The derived `Serialize` of `AlertOut`. -/
def AlertOut.toJson (out : AlertOut) : Json :=
  .obj [("severity", .str out.severity), ("rule", .str out.rule), ("key", .str out.key),
    ("count", .num (toString out.count)), ("window_secs", .num (toString out.windowSecs)),
    ("fired_at_rfc3339", .str out.firedAtRfc3339),
    ("sample_chain", optionJson out.sampleChain), ("sample_rid", optionJson out.sampleRid),
    ("sample_step", optionJson out.sampleStep),
    ("sample_message", optionJson out.sampleMessage)]

/-- What `LoggerSink::dispatch` logs and returns. -/
def dispatch (alert : Alert) : Json × Except SinkError Unit :=
  ((AlertOut.ofAlert alert).toJson, .ok ())

theorem severityText_inj {s s' : Severity} (h : severityText s = severityText s') : s = s' := by
  cases s <;> cases s' <;> first | rfl | exact absurd h (by decide)

theorem optionJson_inj {a b : Option String} (h : optionJson a = optionJson b) : a = b := by
  cases a with
  | none =>
    cases b with
    | none => rfl
    | some _ => cases h
  | some _ =>
    cases b with
    | none => cases h
    | some _ => exact congrArg some (Json.str.inj h)

theorem natText_toList (n : Nat) : (toString n).toList = Nat.toDigits 10 n := Nat.toList_repr

/-- The digits of a number determine it. -/
theorem natText_inj {m n : Nat} (h : toString m = toString n) : m = n := by
  have hdigits := congrArg (fun text : String => Nat.ofDigitChars 10 text.toList 0) h
  have hback : ∀ k : Nat, Nat.ofDigitChars 10 (toString k).toList 0 = k := fun k => by
    rw [natText_toList, Nat.ofDigitChars_ten_toDigits]
  rwa [hback, hback] at hdigits

theorem head_ne_minus (n : Nat) (text : List Char) : (toString n).toList ≠ '-' :: text := by
  intro h
  rw [natText_toList] at h
  have hmem : '-' ∈ Nat.toDigits 10 n := h ▸ List.mem_cons_self
  exact absurd (Nat.isDigit_of_mem_toDigits (by decide) (by decide) hmem) (by decide)

theorem negText_toList (n : Nat) :
    (toString (Int.negSucc n)).toList = '-' :: (toString (n + 1)).toList :=
  String.toList_append

theorem intText_inj {m n : Int} (h : toString m = toString n) : m = n := by
  cases m with
  | ofNat m =>
    cases n with
    | ofNat n => exact congrArg Int.ofNat (natText_inj h)
    | negSucc n =>
      exact absurd ((congrArg String.toList h).trans (negText_toList n)) (head_ne_minus m _)
  | negSucc m =>
    cases n with
    | ofNat n =>
      exact absurd ((congrArg String.toList h).symm.trans (negText_toList m)) (head_ne_minus n _)
    | negSucc n =>
      have hlist := congrArg String.toList h
      rw [negText_toList, negText_toList] at hlist
      have hsucc := natText_inj (String.toList_injective (List.cons.inj hlist).2)
      rw [Nat.succ.inj hsucc]

/-- The fields are in a fixed order, so the object determines each of them. -/
theorem AlertOut.toJson_inj {out out' : AlertOut} (h : out.toJson = out'.toJson) : out = out' := by
  have hfields := Json.obj.inj h
  simp only [List.cons.injEq, Prod.mk.injEq, Json.str.injEq, Json.num.injEq, true_and,
    and_true] at hfields
  obtain ⟨hseverity, hrule, hkey, hcount, hwindow, hfired, hchain, hrid, hstep, hmessage⟩ :=
    hfields
  obtain ⟨severity, rule, key, count, windowSecs, firedAt, chain, rid, step, message⟩ := out
  dsimp only at *
  rw [hseverity, hrule, hkey, natText_inj hcount, intText_inj hwindow, hfired,
    optionJson_inj hchain, optionJson_inj hrid, optionJson_inj hstep, optionJson_inj hmessage]

/-- The alerts have the same sample as far as it is logged. -/
def SameSample (alert alert' : Alert) : Prop :=
  alert.sampleEvent.bind StructuredEvent.chain = alert'.sampleEvent.bind StructuredEvent.chain ∧
  alert.sampleEvent.bind StructuredEvent.rid = alert'.sampleEvent.bind StructuredEvent.rid ∧
  alert.sampleEvent.bind StructuredEvent.step = alert'.sampleEvent.bind StructuredEvent.step ∧
  alert.sampleEvent.map StructuredEvent.message = alert'.sampleEvent.map StructuredEvent.message

/-- Two alerts are logged alike exactly if they agree on everything but the level, the source
and the raw line of their samples. -/
theorem logged_alike_iff (alert alert' : Alert) :
    (dispatch alert).1 = (dispatch alert').1 ↔
      alert.severity = alert'.severity ∧ alert.rule = alert'.rule ∧ alert.key = alert'.key ∧
      alert.count = alert'.count ∧ alert.windowSecs = alert'.windowSecs ∧
      alert.firedAt = alert'.firedAt ∧ SameSample alert alert' := by
  constructor
  · intro h
    have same := AlertOut.mk.inj (AlertOut.toJson_inj h)
    obtain ⟨hseverity, hrule, hkey, hcount, hwindow, hfired, hsample⟩ := same
    exact ⟨severityText_inj hseverity, hrule, hkey, hcount, hwindow, toRfc3339_inj hfired,
      hsample⟩
  · rintro ⟨hseverity, hrule, hkey, hcount, hwindow, hfired, hchain, hrid, hstep, hmessage⟩
    simp only [dispatch, AlertOut.ofAlert, hseverity, hrule, hkey, hcount, hwindow, hfired, hchain,
      hrid, hstep, hmessage]

end Watchtower.Logger
