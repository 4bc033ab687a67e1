import EntityGraph.CommandLine.Arguments
import EntityGraph.CommandLine.Usage

/-!
# Requests

What the tool is asked to do with a schema document, and the command lines that ask for it.
-/

namespace EntityGraph.CommandLine

/-- The forms in which a schema is described. -/
inductive DescriptionFormat
  | text
  | json
  deriving DecidableEq, Repr

/-- What is done with a document. -/
inductive Command
  | validate
  | describe (format : DescriptionFormat)
  | fingerprint
  deriving DecidableEq, Repr

/-- A command and the path of the document. -/
structure Request where
  command : Command
  path : String
  deriving DecidableEq, Repr

/-- A command line that asks for nothing that is done with a document. -/
structure Stop where
  grammar : Grammar
  halt : Halt
  deriving DecidableEq, Repr

namespace DescriptionFormat

/-- The name of a form. -/
def name : DescriptionFormat → String
  | text => "text"
  | json => "json"

/-- The form of a name; text if there is no such form. -/
def ofName (name : String) : DescriptionFormat := if name = json.name then json else text

/-- The option that chooses a form. -/
def choice : OptionDecl := ⟨["--format"], [text.name, json.name], "Output format"⟩

end DescriptionFormat

namespace Grammar

/-- The name of the tool. -/
def toolName : String := "entmodel"

/-- The commands with their help. -/
def commands : List (String × String) :=
  [("validate", "Compile and validate a schema"), ("describe", "Print the compiled schema"),
    ("fingerprint", "Print schema fingerprint")]

/-- The command line of the tool. -/
def tool : Grammar :=
  ⟨toolName, "entmodel schema tool", [.askHelp], .command "command" commands⟩

/-- The command line of a command. -/
def ofCommand (name : String) : Grammar :=
  ⟨toolName ++ " " ++ name, "",
    if name = "describe" then [.askHelp, DescriptionFormat.choice] else [.askHelp],
    .one "file" "Schema document (.yaml, .yml or .json)"⟩

end Grammar

/-- The command of a name with the options that it is given. The format given last counts. -/
def Command.ofName (name : String) (options : List (String × String)) : Command :=
  if name = "validate" then validate
  else if name = "describe" then
    let format := options.lookup DescriptionFormat.choice.shown
    describe ((format.map DescriptionFormat.ofName).getD .text)
  else fingerprint

/-- What a command line asks for. Arguments that nothing is known about are refused at the end. -/
def Request.ofArguments (arguments : List String) : Except Stop Request := do
  let tool := Grammar.tool
  let line ← (tool.read arguments).mapError (Stop.mk tool)
  let name := line.operands.headD ""
  let grammar := Grammar.ofCommand name
  let given ← (grammar.read line.operands.tail).mapError (Stop.mk grammar)
  let extras := line.extras ++ given.extras
  if extras.isEmpty then
    return ⟨Command.ofName name given.options, given.operands.headD ""⟩
  else .error ⟨tool, .misuse (.unrecognized extras)⟩

end EntityGraph.CommandLine
