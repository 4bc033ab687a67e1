import EntityGraph.Failure
import EntityGraph.Text.Digits

/-!
# Settings

How schemas are compiled and how the log is written. Settings come from an environment of named
texts, and every one has a default.
-/

namespace EntityGraph

open EntityGraph.Text

/-- How schemas are compiled. -/
structure CompilerConfig where
  /-- The bound type of entities that name none. -/
  defaultBoundType : String
  /-- Whether findings about a schema refuse it. -/
  isStrict : Bool
  named : defaultBoundType ≠ ""

namespace CompilerConfig

/-- The default of the default bound type. -/
def standardBoundType : String := "ManagedObject"

instance : Inhabited CompilerConfig := ⟨standardBoundType, false, by decide⟩

/-- The configuration of two settings. The default bound type must not be empty. -/
def make (defaultBoundType : String) (isStrict : Bool) : Except Failure CompilerConfig :=
  if h : defaultBoundType = "" then Refusal.noDefaultBoundType.raise
  else .ok ⟨defaultBoundType, isStrict, h⟩

end CompilerConfig

/-- The layouts of log lines. -/
inductive LogFormat
  | text
  | json
  deriving DecidableEq, Repr

namespace LogFormat

/-- The name of a layout. -/
def name : LogFormat → String
  | text => "text"
  | json => "json"

/-- The layout of a name. -/
def read (name : String) : Except Failure LogFormat :=
  if name = "text" then .ok text
  else if name = "json" then .ok json
  else (Refusal.logFormat name).raise

/-- The name of a layout is read as the layout. -/
@[simp] theorem read_name (format : LogFormat) : read format.name = .ok format := by
  cases format <;> rfl

end LogFormat

/-- How the log is written. -/
structure LogConfig where
  /-- The name of the level from which on records are written, which may name none. -/
  level : String
  format : LogFormat
  deriving DecidableEq, Repr

instance : Inhabited LogConfig := ⟨"INFO", .text⟩

/-- All settings. -/
structure Settings where
  compiler : CompilerConfig
  log : LogConfig

/-- Named texts. -/
abbrev Environment := List (String × String)

namespace Environment

/-- The text of a name. -/
def text? (env : Environment) (name : String) : Option String := env.lookup name

/-- Whether a text is a word for yes, in letters of either case. No letter outside ASCII has one of
the letters of these words as its small form. -/
def isYes (text : String) : Bool :=
  ["1", "true", "yes"].contains (String.ofList (text.toList.map lowerAscii))

/-- The compiler settings of an environment. -/
def compiler (env : Environment) : Except Failure CompilerConfig :=
  CompilerConfig.make
    ((env.text? "ENTMODEL_DEFAULT_BOUND_TYPE").getD CompilerConfig.standardBoundType)
    (isYes ((env.text? "ENTMODEL_STRICT_CONSISTENCY").getD "false"))

/-- The log settings of an environment. -/
def log (env : Environment) : Except Failure LogConfig := do
  let format ← LogFormat.read ((env.text? "LOG_FORMAT").getD "text")
  return ⟨(env.text? "LOG_LEVEL").getD "INFO", format⟩

/-- The settings of an environment. The compiler settings are looked at first. -/
def settings (env : Environment) : Except Failure Settings := do
  let compiler ← env.compiler
  let log ← env.log
  return ⟨compiler, log⟩

end Environment

end EntityGraph
