import Mathlib.Data.List.DropRight
import Watchtower.Foundation.Regex

/-!
# Structured log lines

`parse_line` and the four patterns it uses. Text is a string of Unicode scalar
values; the patterns are matched leftmost-first, `.` refuses a newline and `$`
holds only at the end of the text. The Unicode classes behind `\b` and `\d` are
tables of the regex library and stay a parameter; what is used of them is their
ASCII part.
-/

namespace Watchtower.Parse

open Regex Regex.Pattern

inductive Level where
  | debug
  | info
  | warn
  | error
  | fatal
  | other (s : String)
  deriving DecidableEq, Repr

def toAsciiUppercase (s : String) : String := String.ofList (s.toList.map Char.toUpper)

def Level.parse (s : String) : Level :=
  match toAsciiUppercase s with
  | "DEBUG" => .debug
  | "INFO" => .info
  | "WARN" | "WARNING" => .warn
  | "ERROR" | "ERR" => .error
  | "FATAL" | "CRITICAL" | "CRIT" => .fatal
  | upper => .other upper

structure StructuredEvent where
  level : Level
  source : String
  chain : Option String
  rid : Option String
  step : Option String
  message : String
  raw : String
  deriving DecidableEq, Repr

inductive LogEvent where
  | structured (event : StructuredEvent)
  | unstructured (raw : String)
  deriving DecidableEq, Repr

/-- The Unicode `White_Space` property, as `str::trim` and `\s` read it. -/
def isWhitespace (c : Char) : Bool :=
  (0x09 ≤ c.toNat && c.toNat ≤ 0x0D) || c.toNat == 0x20 || c.toNat == 0x85 ||
  c.toNat == 0xA0 || c.toNat == 0x1680 || (0x2000 ≤ c.toNat && c.toNat ≤ 0x200A) ||
  c.toNat == 0x2028 || c.toNat == 0x2029 || c.toNat == 0x202F || c.toNat == 0x205F ||
  c.toNat == 0x3000

/-- The classes `\w` and `\d`, known on ASCII only. -/
structure UnicodeClasses where
  word : Char → Bool
  digit : Char → Bool
  word_ascii : ∀ c : Char, c.toNat < 128 → word c = (c.isAlphanum || c == '_')
  digit_ascii : ∀ c : Char, c.toNat < 128 → digit c = c.isDigit

def UnicodeClasses.ascii : UnicodeClasses where
  word c := c.isAlphanum || c == '_'
  digit c := c.isDigit
  word_ascii _ _ := rfl
  digit_ascii _ _ := rfl

def trim (s : String) : String :=
  String.ofList ((s.toList.dropWhile isWhitespace).rdropWhile isWhitespace)

def notBracket (c : Char) : Bool := c != ']'
def isAsciiLetter (c : Char) : Bool := c.isAlpha
def notNewline (c : Char) : Bool := c != '\n'
def fieldChar (c : Char) : Bool := c.isAlphanum || c == '_' || c == '-'

def spaces : Pattern Char String := plus true (.cls isWhitespace)

def lits (s : String) : Pattern Char String := concat (s.toList.map lit)

/-- `^\[(?P<time>[^\]]+)\]\s+\[(?P<level>[A-Za-z]+)\]\s+\[(?P<source>[^\]]+)\]\s*(?P<rest>.*)$` -/
def bracketPrefix : Pattern Char String :=
  concat [start,
    lit '[', .group "time" (plus true (.cls notBracket)), lit ']', spaces,
    lit '[', .group "level" (plus true (.cls isAsciiLetter)), lit ']', spaces,
    lit '[', .group "source" (plus true (.cls notBracket)), lit ']',
    .star true (.cls isWhitespace), .group "rest" (.star true (.cls notNewline)), finish]

variable (u : UnicodeClasses)

/-- `\bchain=(?P<v>[A-Za-z0-9_\-]+)` -/
def fieldChain : Pattern Char String :=
  concat [boundary u.word, lits "chain=", .group "v" (plus true (.cls fieldChar))]

/-- `\brid=(?P<v>[A-Za-z0-9_\-]+)` -/
def fieldRid : Pattern Char String :=
  concat [boundary u.word, lits "rid=", .group "v" (plus true (.cls fieldChar))]

/-- `\bstep=(?P<v>[^\s]+(?:\s+[^\s]+)*?\s+\d+/\d+)` -/
def fieldStep : Pattern Char String :=
  concat [boundary u.word, lits "step=", .group "v" (concat [
    plus true (.cls fun c => !isWhitespace c),
    .star false (concat [spaces, plus true (.cls fun c => !isWhitespace c)]),
    spaces, plus true (.cls u.digit), lit '/', plus true (.cls u.digit)])]

/-- The text of a named group; a group that took no part reads as the empty text. -/
def groupText (name : String) (caps : Cursor Char String) : String :=
  ((caps.named name).map String.ofList).getD ""

def capturedField (pattern : Pattern Char String) (rest : String) : Option String :=
  ((captures pattern rest.toList).bind (·.named "v")).map String.ofList

def parseLine (line : String) : LogEvent :=
  let trimmed := trim line
  if trimmed.isEmpty then .unstructured line
  else
    match captures bracketPrefix trimmed.toList with
    | none => .unstructured line
    | some caps =>
      let rest := groupText "rest" caps
      .structured {
        level := Level.parse (groupText "level" caps)
        source := groupText "source" caps
        chain := capturedField (fieldChain u) rest
        rid := capturedField (fieldRid u) rest
        step := capturedField (fieldStep u) rest
        message := rest
        raw := line }

end Watchtower.Parse
