import Mathlib.Data.List.Nodup

/-!
# Journal lines

How a line of `journalctl --output=json` becomes a message. The text parser of the
JSON library is a parameter; what the derived `Deserialize` of `JournalLine` makes
of the parsed value is modelled, with its errors for a repeated or ill-typed field.
-/

namespace Watchtower.Journal

inductive Json where
  | null
  | bool (b : Bool)
  | num (text : String)
  | str (s : String)
  | arr (elements : List Json)
  | obj (fields : List (String × Json))

structure JournalLine where
  message : Option String
  unit : Option String
  deriving DecidableEq, Repr

/-- A message as it goes through the channel: the unit and the text. -/
abbrev RawMessage := String × String

/-- A value read as `Option<String>`; the outer `none` is a type error. -/
def optionString : Json → Option (Option String)
  | .null => some none
  | .str s => some (some s)
  | _ => none

/-- One more occurrence of a field: an error if it was there already. -/
def fillSlot (slot : Option (Option String)) (value : Json) : Option (Option (Option String)) :=
  match slot with
  | some _ => none
  | none => (optionString value).map some

/-- One step of the derived visitor over the fields of an object. -/
def visitField (slots : Option (Option String) × Option (Option String))
    (field : String × Json) : Option (Option (Option String) × Option (Option String)) :=
  if field.1 = "MESSAGE" then (fillSlot slots.1 field.2).map fun slot => (slot, slots.2)
  else if field.1 = "_SYSTEMD_UNIT" then
    (fillSlot slots.2 field.2).map fun slot => (slots.1, slot)
  else some slots

/-- The derived `Deserialize`: an object by its field names, an array by position. -/
def JournalLine.deserialize : Json → Option JournalLine
  | .obj fields => (fields.foldlM visitField (none, none)).map fun slots =>
      ⟨slots.1.join, slots.2.join⟩
  | .arr [message, unit] => do
      let message ← optionString message
      let unit ← optionString unit
      return ⟨message, unit⟩
  | _ => none

/-- The message both of whose fields are there. -/
def JournalLine.toMessage (line : JournalLine) : Option RawMessage :=
  match line.message, line.unit with
  | some msg, some unit => some (unit, msg)
  | _, _ => none

variable (parse : String → Option Json)

/-- What the reader loop sends for a line, if anything. -/
def forward (line : String) : Option RawMessage :=
  ((parse line).bind JournalLine.deserialize).bind JournalLine.toMessage

/-- The message of a line: it is a JSON object with a string under both names. -/
def decodable (line : String) : Option RawMessage :=
  match parse line with
  | some (.obj fields) =>
    match fields.lookup "MESSAGE", fields.lookup "_SYSTEMD_UNIT" with
    | some (.str msg), some (.str unit) => some (unit, msg)
    | _, _ => none
  | _ => none

/-- What journalctl promises of a line: if it is JSON at all, it is an object, and no
field comes twice. -/
def JournalctlLine (line : String) : Prop :=
  ∀ json, parse line = some json → ∃ fields : List (String × Json),
    json = .obj fields ∧ (fields.map Prod.fst).Nodup

/-- What a slot holds after the fields, if no error occurs. -/
def slotAfter (key : String) (fields : List (String × Json)) (slot : Option (Option String)) :
    Option (Option (Option String)) :=
  match fields.lookup key with
  | none => some slot
  | some value => fillSlot slot value

theorem slotAfter_cons_same (key : String) (value : Json) (rest : List (String × Json))
    (slot : Option (Option String)) (hrest : key ∉ rest.map Prod.fst) :
    slotAfter key ((key, value) :: rest) slot =
      (fillSlot slot value).bind (slotAfter key rest) := by
  have hnone : rest.lookup key = none := by
    rw [List.lookup_eq_none_iff]
    intro field mem
    rw [bne_iff_ne]
    rintro rfl
    exact hrest (List.mem_map_of_mem mem)
  have hlast : slotAfter key rest = some := by
    funext slot
    rw [slotAfter, hnone]
  rw [slotAfter, List.lookup_cons_self, hlast]
  exact (Option.bind_fun_some _).symm

theorem slotAfter_cons_other {key name : String} (h : name ≠ key) (value : Json)
    (rest : List (String × Json)) (slot : Option (Option String)) :
    slotAfter key ((name, value) :: rest) slot = slotAfter key rest slot := by
  have hbeq : (key == name) = false := by
    rw [beq_eq_false_iff_ne]
    exact h.symm
  rw [slotAfter, slotAfter, List.lookup_cons, hbeq]

/-- With no field twice, the visitor fills each slot on its own. -/
theorem foldlM_visitField {fields : List (String × Json)}
    (distinct : (fields.map Prod.fst).Nodup) (slots : Option (Option String) ×
      Option (Option String)) :
    fields.foldlM visitField slots = (slotAfter "MESSAGE" fields slots.1).bind fun message =>
      (slotAfter "_SYSTEMD_UNIT" fields slots.2).map fun unit => (message, unit) := by
  induction fields generalizing slots with
  | nil => rfl
  | cons field rest ih =>
    obtain ⟨name, value⟩ := field
    obtain ⟨hname, hrest⟩ := List.nodup_cons.mp distinct
    rw [List.foldlM_cons]
    by_cases hmessage : name = "MESSAGE"
    · subst hmessage
      have hvisit : visitField slots ("MESSAGE", value) =
          (fillSlot slots.1 value).map fun slot => (slot, slots.2) := rfl
      rw [hvisit, slotAfter_cons_same _ _ _ _ hname,
        slotAfter_cons_other (by decide : "MESSAGE" ≠ "_SYSTEMD_UNIT")]
      cases fillSlot slots.1 value with
      | none => rfl
      | some slot => exact ih hrest (slot, slots.2)
    · by_cases hunit : name = "_SYSTEMD_UNIT"
      · subst hunit
        have hvisit : visitField slots ("_SYSTEMD_UNIT", value) =
            (fillSlot slots.2 value).map fun slot => (slots.1, slot) := rfl
        rw [hvisit, slotAfter_cons_same _ _ _ _ hname,
          slotAfter_cons_other (by decide : "_SYSTEMD_UNIT" ≠ "MESSAGE")]
        cases fillSlot slots.2 value with
        | none => simp
        | some slot => exact ih hrest (slots.1, slot)
      · have hvisit : visitField slots (name, value) = some slots := by
          rw [visitField, if_neg hmessage, if_neg hunit]
        rw [hvisit, slotAfter_cons_other hmessage, slotAfter_cons_other hunit]
        exact ih hrest slots

/-- A field of type `Option<String>` is there with a string exactly when the object has
a string under its name; anything but a string, `null` or nothing is an error. -/
theorem slotAfter_none (key : String) (fields : List (String × Json)) :
    slotAfter key fields none = match fields.lookup key with
      | none => some none
      | some .null => some (some none)
      | some (.str s) => some (some (some s))
      | some _ => none := by
  rw [slotAfter]
  cases fields.lookup key with
  | none => rfl
  | some value => cases value <;> rfl

/-- On a line of journalctl the reader forwards exactly what is decodable. -/
theorem forward_eq_decodable {line : String} (journalctl : JournalctlLine parse line) :
    forward parse line = decodable parse line := by
  cases hparse : parse line with
  | none => simp [forward, decodable, hparse]
  | some json =>
    obtain ⟨fields, rfl, distinct⟩ := journalctl json hparse
    have hfold := foldlM_visitField distinct (none, none)
    simp only [forward, decodable, hparse, Option.bind_some, JournalLine.deserialize, hfold,
      slotAfter_none]
    cases fields.lookup "MESSAGE" with
    | none =>
      cases fields.lookup "_SYSTEMD_UNIT" with
      | none => rfl
      | some unit => cases unit <;> rfl
    | some message =>
      cases fields.lookup "_SYSTEMD_UNIT" with
      | none => cases message <;> rfl
      | some unit => cases message <;> cases unit <;> rfl

end Watchtower.Journal
