import Watchtower.Pipeline

/-!
# Journal entries as JSON

The values of a journal entry are bytes. `journalctl --output=json` writes a printable
value as a string and any other value as an array of numbers, and the reader takes
strings only. What counts as printable is known of the escape character alone.
-/

namespace Watchtower.Journal

open Parse Pipeline

/-- The fields by their names, each with its values: an entry may have several. -/
structure Entry where
  fields : List (String × List ByteArray)
  distinct : (fields.map Prod.fst).Nodup

/-- The texts that journalctl prints as they are. A colour escape is not one. -/
structure Printing where
  printable : String → Bool
  escape : ∀ text, '\x1b' ∈ text.toList → printable text = false

namespace Printing
variable (printing : Printing)

def bytes (value : ByteArray) : Json :=
  .arr (value.data.toList.map fun b => .num (toString b.toNat))

def field (value : ByteArray) : Json :=
  match String.fromUTF8? value with
  | some text => if printing.printable text then .str text else bytes value
  | none => bytes value

/-- Several values of one field become an array. -/
def values : List ByteArray → Json
  | [value] => printing.field value
  | several => .arr (several.map printing.field)

def json (entry : Entry) : Json :=
  .obj (entry.fields.map fun field => (field.1, printing.values field.2))

theorem values_toUTF8 (text : String) : printing.values [text.toUTF8] =
    if printing.printable text then .str text else bytes text.toUTF8 := by
  have htext : String.fromUTF8? text.toUTF8 = some text := dif_pos text.isValidUTF8
  rw [values, field, htext]

end Printing

theorem lookup_map_snd {α β : Type} (f : α → β) (key : String) (fields : List (String × α)) :
    (fields.map fun field => (field.1, f field.2)).lookup key = (fields.lookup key).map f := by
  induction fields with
  | nil => rfl
  | cons field rest ih =>
    rw [List.map_cons, List.lookup_cons, List.lookup_cons, ih]
    cases key == field.1 with
    | true => rfl
    | false => rfl

section Line
variable {parse : String → Option Json} {printing : Printing} {entry : Entry} {line : String}

theorem journalctlLine_of_json (prints : parse line = some (printing.json entry)) :
    JournalctlLine parse line := by
  intro json hjson
  rw [prints] at hjson
  obtain rfl := Option.some.inj hjson
  refine ⟨_, rfl, ?_⟩
  rw [List.map_map]
  exact entry.distinct

/-- The line of an entry is forwarded if both of its texts are printable. -/
theorem forward_entry (prints : parse line = some (printing.json entry)) {unit message : String}
    (hunit : entry.fields.lookup "_SYSTEMD_UNIT" = some [unit.toUTF8])
    (hmessage : entry.fields.lookup "MESSAGE" = some [message.toUTF8]) :
    forward parse line = if printing.printable message ∧ printing.printable unit then
      some (unit, message) else none := by
  rw [forward_eq_decodable parse (journalctlLine_of_json prints), decodable, prints,
    Printing.json]
  dsimp only
  rw [lookup_map_snd, lookup_map_snd, hunit, hmessage, Option.map_some, Option.map_some,
    Printing.values_toUTF8, Printing.values_toUTF8]
  cases printing.printable message with
  | false => simp [Printing.bytes]
  | true =>
    cases printing.printable unit with
    | false => simp [Printing.bytes]
    | true => simp

end Line

variable (parse : String → Option Json) (u : UnicodeClasses)

/-- In every run: once the reader is through with the line, and the receiver is open, what
was sent to the channel is what the earlier lines gave and then the message. -/
def ForwardsVerbatim (line : String) (msg : RawMessage) : Prop :=
  ∀ s before, Reachable parse u s → s.lines = before ++ [line] → s.main ≠ .exited →
    s.reader.pending = [] →
    s.received.map Prod.fst ++ s.channel = before.filterMap (forward parse) ++ [msg]

theorem forwardsVerbatim_iff (line : String) (msg : RawMessage) :
    ForwardsVerbatim parse u line msg ↔ forward parse line = some msg := by
  constructor
  · intro forwards
    have hread : Reachable parse u (start.readLine parse line) :=
      .single (Step.read start line rfl)
    cases hline : forward parse line with
    | none =>
      have hreader : (start.readLine parse line).reader = .reading := by
        rw [Daemon.readLine, hline]
      have hnone := forwards _ [] hread rfl MainTask.noConfusion (by rw [hreader]; rfl)
      cases hnone
    | some sent =>
      have hreader : (start.readLine parse line).reader = .sending sent := by
        rw [Daemon.readLine, hline]
      have hsend := hread.tail (Step.send _ sent hreader (Nat.zero_lt_succ 1023)
        MainTask.noConfusion)
      have hsent := forwards _ [] hsend rfl MainTask.noConfusion rfl
      rw [← (List.cons.inj hsent).1]
  · intro hline s before reachable hlines _ hpending
    have horder := (reachable_invariant reachable).in_order
    rw [hpending, hlines, List.append_nil, List.filterMap_append] at horder
    rw [horder]
    simp [hline]

/-- An entry is forwarded verbatim exactly if its message and its unit are printable. -/
theorem forwards_entry_iff (printing : Printing) (entry : Entry) (line : String)
    (prints : parse line = some (printing.json entry)) (unit message : String)
    (hunit : entry.fields.lookup "_SYSTEMD_UNIT" = some [unit.toUTF8])
    (hmessage : entry.fields.lookup "MESSAGE" = some [message.toUTF8]) :
    ForwardsVerbatim parse u line (unit, message) ↔
      printing.printable message = true ∧ printing.printable unit = true := by
  rw [forwardsVerbatim_iff, forward_entry prints hunit hmessage]
  simp

/-- No control characters but the tab and the newline. -/
def controlFree : Printing where
  printable text := text.toList.all fun c => !(c.toNat < 0x20 && c != '\t' && c != '\n') &&
    !(0x7F ≤ c.toNat && c.toNat ≤ 0x9F)
  escape text mem := by
    rw [List.all_eq_false]
    exact ⟨'\x1b', mem, by decide⟩

def serviceEntry (message : String) : Entry where
  fields := [("MESSAGE", [message.toUTF8]), ("_SYSTEMD_UNIT", ["db.service".toUTF8])]
  distinct := by simp

/-- The JSON library on the line of one entry. -/
def parseOnly (line : String) (entry : Entry) (other : String) : Option Json :=
  if other = line then some (controlFree.json entry) else none

def plainLine : String :=
  "\x7b\"MESSAGE\":\"[3 PM] [FATAL] [db] down\",\"_SYSTEMD_UNIT\":\"db.service\"\x7d"

theorem forwards_entry_iff_plain :
    ForwardsVerbatim (parseOnly plainLine (serviceEntry "[3 PM] [FATAL] [db] down")) .ascii
      plainLine ("db.service", "[3 PM] [FATAL] [db] down") :=
  (forwards_entry_iff _ .ascii controlFree (serviceEntry "[3 PM] [FATAL] [db] down") plainLine
    (if_pos rfl) "db.service" "[3 PM] [FATAL] [db] down" rfl rfl).mpr
    ⟨by decide, by decide⟩

def colouredMessage : String := "\x1b[31mFATAL\x1b[0m"

/-- The line that journalctl prints for it: the message as its bytes. -/
def colouredLine : String :=
  "\x7b\"MESSAGE\":[27,91,51,49,109,70,65,84,65,76,27,91,48,109]," ++
  "\"_SYSTEMD_UNIT\":\"db.service\"\x7d"

/-- A message in colour is valid UTF-8, and never comes through. -/
theorem coloured_message_dropped :
    ¬ ∀ (parse : String → Option Json) (u : UnicodeClasses) (printing : Printing)
      (entry : Entry) (line unit message : String), parse line = some (printing.json entry) →
      entry.fields.lookup "_SYSTEMD_UNIT" = some [unit.toUTF8] →
      entry.fields.lookup "MESSAGE" = some [message.toUTF8] →
      ForwardsVerbatim parse u line (unit, message) := by
  intro all
  have prints : parseOnly colouredLine (serviceEntry colouredMessage) colouredLine =
      some (controlFree.json (serviceEntry colouredMessage)) := if_pos rfl
  have forwards := all _ .ascii controlFree _ colouredLine "db.service" colouredMessage prints
    rfl rfl
  rw [forwardsVerbatim_iff, forward_entry prints rfl rfl,
    controlFree.escape colouredMessage (by decide)] at forwards
  simp at forwards

end Watchtower.Journal
