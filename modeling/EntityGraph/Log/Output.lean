import EntityGraph.Json.Quoted
import EntityGraph.Log.Record
import EntityGraph.Settings

/-!
# Writing a log

The lines that records become, and the number from which on records are written. A line says when
its record was made; the time is put in by whoever writes the line.
-/

namespace EntityGraph

open EntityGraph.Text

/-- What a name stands for as a level. -/
inductive Threshold
  | number (n : Int)
  /-- A text that is no level. -/
  | text (s : String)
  /-- Something that is neither a number nor a text, as it is shown. -/
  | other (shown : String)

namespace Threshold

/-- The plain layout of a line. -/
def plainLayout : String := "%(levelname)s:%(name)s:%(message)s"

/-- The layouts of lines by the character that marks their fields. -/
def layouts : String :=
  let layout (mark style text : String) : String :=
    "'" ++ mark ++ "': (<class 'logging." ++ style ++ "'>, '" ++ text ++ "')"
  "\x7b" ++
    ", ".intercalate
      [layout "%" "PercentStyle" plainLayout,
        layout "\x7b" "StrFormatStyle" "\x7blevelname\x7d:\x7bname\x7d:\x7bmessage\x7d",
        layout "$" "StringTemplateStyle" "$\x7blevelname\x7d:$\x7bname\x7d:$\x7bmessage\x7d"] ++
    "\x7d"

/-- Every name that stands for something. -/
def named : List (String × Threshold) :=
  [("NOTSET", .number 0), ("DEBUG", .number 10), ("INFO", .number 20), ("WARN", .number 30),
    ("WARNING", .number 30), ("ERROR", .number 40), ("CRITICAL", .number 50), ("FATAL", .number 50),
    ("BASIC_FORMAT", .text plainLayout), ("_STYLES", .other layouts)]

/-- The capital form of a character, as far as it is made of ASCII letters. -/
def capitals (c : Char) : List Char :=
  match c.toNat with
  | 0x131 => ['I']
  | 0x17F => ['S']
  | 0xDF => ['S', 'S']
  | 0xFB00 => ['F', 'F']
  | 0xFB01 => ['F', 'I']
  | 0xFB02 => ['F', 'L']
  | 0xFB03 => ['F', 'F', 'I']
  | 0xFB04 => ['F', 'F', 'L']
  | 0xFB05 | 0xFB06 => ['S', 'T']
  | _ => [upperAscii c]

/-- What a name stands for in letters of either case; the level of information if it stands for
nothing. -/
def ofName (name : String) : Threshold :=
  (named.lookup (String.ofList (name.toList.flatMap capitals))).getD (.number LogLevel.info.number)

/-- The number of a level. -/
def toNumber : Threshold → Except Failure Int
  | number n => .ok n
  | text s => (Refusal.unknownLevel (quoted s)).raise
  | other shown => (Refusal.strangeLevel shown).raise

end Threshold

namespace LogConfig

/-- The number from which on records are written. -/
def threshold (config : LogConfig) : Except Failure Int := (Threshold.ofName config.level).toNumber

/-- The line of a record made at a time. -/
def line (config : LogConfig) (time logger level message : String) : String :=
  match config.format with
  | .text => " - ".intercalate [time, logger, level, message]
  | .json =>
    "\x7b\"message\": " ++ Json.quoted message ++ ", \"time\": " ++ Json.quoted time ++ "\x7d"

/-- The line of a record, if it is written. -/
def write? (config : LogConfig) (threshold : Int) (time : String) (r : LogRecord) : Option String :=
  if threshold ≤ r.level.number then some (config.line time r.logger r.level.name r.message)
  else none

end LogConfig

end EntityGraph
