import Watchtower.Ntfy

/-!
# What log text can put into a header

The title, the tags and the subject are made of texts of the program, of the name of a
rule, of a number and of the chain of the sample. Only the chain comes from a log line,
and its pattern lets no character through that means something to a header.
-/

namespace Watchtower.Ntfy

open Chrono Classify Email Parse

/-- A text that can stand in a header: printable ASCII on one line. -/
structure HeaderSafe (s : String) : Prop where
  printable : ∀ c ∈ s.toList, 0x20 ≤ c.toNat ∧ c.toNat ≤ 0x7E
  no_cr : '\r' ∉ s.toList
  no_lf : '\n' ∉ s.toList

theorem headerSafe_of_printable {s : String}
    (printable : ∀ c ∈ s.toList, 0x20 ≤ c.toNat ∧ c.toNat ≤ 0x7E) : HeaderSafe s :=
  ⟨printable, fun h => absurd (printable _ h) (by decide),
    fun h => absurd (printable _ h) (by decide)⟩

theorem headerSafe_of_all {s : String}
    (h : (s.toList.all fun c => decide (0x20 ≤ c.toNat ∧ c.toNat ≤ 0x7E)) = true) :
    HeaderSafe s :=
  headerSafe_of_printable fun c hc => of_decide_eq_true (List.all_eq_true.mp h c hc)

theorem HeaderSafe.append {s t : String} (hs : HeaderSafe s) (ht : HeaderSafe t) :
    HeaderSafe (s ++ t) := by
  refine headerSafe_of_printable fun c hc => ?_
  rw [String.toList_append, List.mem_append] at hc
  exact hc.elim (hs.printable c) (ht.printable c)

theorem headerSafe_toString (n : Nat) : HeaderSafe (toString n) := by
  refine headerSafe_of_printable fun c hc => ?_
  have hdigit : c.isDigit = true := by
    apply Nat.isDigit_of_mem_toDigits (b := 10) (n := n) (by decide) (by decide)
    simpa using hc
  simp only [Char.isDigit, Bool.and_eq_true, decide_eq_true_eq, UInt32.le_iff_toNat_le] at hdigit
  exact ⟨Nat.le_trans (by decide) hdigit.1, Nat.le_trans hdigit.2 (by decide)⟩

theorem headerSafe_of_token {s : String} (token : IsToken s.toList) : HeaderSafe s := by
  refine headerSafe_of_printable fun c hc => ?_
  have range := fieldChar_range (token.2 c hc)
  exact ⟨Nat.le_trans (by decide) range.1, range.2⟩

section Fired
variable {u : UnicodeClasses} {alert : Alert} {rule : Rule} {e : StructuredEvent}

/-- The chain of the sample, or the text that stands for it. -/
theorem chain_token_or_default (fired : alert.FiredOn rule e) (formed : FieldsFormed u e)
    {default : String} (hdefault : IsToken default.toList) :
    IsToken ((alert.sampleEvent.bind StructuredEvent.chain).getD default).toList := by
  rw [fired.sample, Option.bind_some]
  cases hchain : e.chain with
  | none => exact hdefault
  | some chain => exact formed.chain chain hchain

theorem headerSafe_name (mem : rule ∈ builtinRules) : HeaderSafe rule.name := by
  refine headerSafe_of_all ?_
  have hall : builtinRules.all fun rule =>
      rule.name.toList.all fun c => decide (0x20 ≤ c.toNat ∧ c.toNat ≤ 0x7E) := by decide
  exact List.all_eq_true.mp hall rule mem

theorem headerSafe_title (mem : rule ∈ builtinRules) (fired : alert.FiredOn rule e) :
    HeaderSafe (title alert) := by
  have hseverity : HeaderSafe (titlePrefix alert.severity) := by
    cases alert.severity with
    | info => exact headerSafe_of_all (by decide)
    | warn => exact headerSafe_of_all (by decide)
    | page => exact headerSafe_of_all (by decide)
  rw [title, fired.name]
  exact (hseverity.append (headerSafe_of_all (by decide))).append (headerSafe_name mem)

theorem unknown_token : IsToken "unknown".toList := isToken_of_all (by decide) (by decide)

theorem headerSafe_tags (fired : alert.FiredOn rule e) (formed : FieldsFormed u e) :
    HeaderSafe (tags alert) :=
  (headerSafe_of_all (by decide)).append
    (headerSafe_of_token (chain_token_or_default fired formed unknown_token))

/-- A chain has no comma, so it is one tag. -/
theorem tags_commas (fired : alert.FiredOn rule e) (formed : FieldsFormed u e) :
    (tags alert).toList.count ',' = 1 := by
  have token := chain_token_or_default fired formed unknown_token
  have hnone : ',' ∉ ((alert.sampleEvent.bind StructuredEvent.chain).getD "unknown").toList :=
    fun hmem => absurd (token.2 ',' hmem) (by decide)
  have hone : "rotating_light,".toList.count ',' = 1 := by decide
  delta tags
  rw [String.toList_append, List.count_append, hone, List.count_eq_zero.mpr hnone]

theorem headerSafe_subject (mem : rule ∈ builtinRules) (fired : alert.FiredOn rule e)
    (formed : FieldsFormed u e) : HeaderSafe (subject alert) := by
  have hchain := headerSafe_of_token (chain_token_or_default fired formed unknown_token)
  have hname := headerSafe_name mem
  rw [← fired.name] at hname
  have hfront : HeaderSafe (subjectPrefix ++ " ") := headerSafe_of_all (by decide)
  have hon : HeaderSafe " on " := headerSafe_of_all (by decide)
  have hcount : HeaderSafe " (count=" := headerSafe_of_all (by decide)
  have hclose : HeaderSafe ")" := headerSafe_of_all (by decide)
  exact (((((hfront.append hname).append hon).append hchain).append hcount).append
    (headerSafe_toString _)).append hclose

end Fired

/-- Whatever the messages are: what their alerts put into the title and the tags of a push
and into the subject of a mail is printable ASCII, and the tags are two. -/
theorem headers_safe (u : UnicodeClasses) (messages : List (String × DateTime)) (alert : Alert)
    (mem : alert ∈ Classifier.new.alerts (parsedCalls u messages)) :
    (∀ (sink : NtfySink) (body : String), HeaderSafe (sink.request alert body).title ∧
      HeaderSafe (sink.request alert body).tags ∧
      (sink.request alert body).tags.toList.count ',' = 1) ∧
    ∀ sink : EmailSink, (sink.invocation alert).args[1]? = some (subject alert) ∧
      HeaderSafe (subject alert) := by
  obtain ⟨rule, hrule, message, _, e, parsed, fired⟩ := firedOn_of_parsed mem
  have formed := fieldsFormed_of_structured u parsed
  exact ⟨fun sink body => ⟨headerSafe_title hrule fired, headerSafe_tags fired formed,
      tags_commas fired formed⟩,
    fun sink => ⟨rfl, headerSafe_subject hrule fired formed⟩⟩

/-- A line that tries to add a tag. -/
def commaFatal : StructuredEvent where
  level := .fatal
  source := "db"
  chain := some "db"
  rid := none
  step := none
  message := "chain=db,admin down"
  raw := "[3 PM] [FATAL] [db] chain=db,admin down"

theorem headers_safe_comma :
    fatalAlertOf commaFatal 0 ∈
      Classifier.new.alerts (parsedCalls .ascii [(commaFatal.raw, 0)]) ∧
    (localSink.request (fatalAlertOf commaFatal 0) "").tags = "rotating_light,db" ∧
    (localSink.request (fatalAlertOf commaFatal 0) "").tags.toList.count ',' = 1 ∧
    HeaderSafe (subject (fatalAlertOf commaFatal 0)) := by
  have parsed : parseLine .ascii commaFatal.raw = .structured commaFatal := by decide
  have mem := fatalAlertOf_mem_parsed parsed rfl 0
  have safe := headers_safe .ascii [(commaFatal.raw, 0)] (fatalAlertOf commaFatal 0) mem
  exact ⟨mem, rfl, (safe.1 localSink "").2.2, (safe.2 (.new "ops" "alerts" "mail" 0)).2⟩

end Watchtower.Ntfy
