import EntityGraph.Text.Quoted

/-!
# Grammars of command lines

What a program takes on its command line: options, and one operand or a command with a command line
of its own.
-/

namespace EntityGraph.CommandLine

open EntityGraph.Text

/-- An option. -/
structure OptionDecl where
  names : List String
  /-- The arguments that it can be given. Without any, it takes none and asks for help. -/
  choices : List String
  help : String
  deriving DecidableEq, Repr

/-- What a command line holds besides options. -/
inductive Operand
  | one (name help : String)
  /-- One of several commands, each with its help, and everything that follows it. -/
  | command (name : String) (commands : List (String × String))
  deriving DecidableEq, Repr

/-- What a program takes on its command line. -/
structure Grammar where
  program : String
  /-- What the program is, or nothing. -/
  description : String
  options : List OptionDecl
  operand : Operand
  deriving DecidableEq, Repr

/-- Why a command line is refused. -/
inductive Misuse
  | ambiguous (given : String) (candidates : List String)
  /-- An option that takes no argument is given one. -/
  | excessArgument (option argument : String)
  | missingArgument (option : String)
  | invalidChoice (name given : String) (choices : List String)
  | missingOperand (name : String)
  | unrecognized (arguments : List String)
  deriving DecidableEq, Repr

/-- The message of a misuse. -/
def Misuse.message : Misuse → String
  | ambiguous given candidates =>
    "ambiguous option: " ++ given ++ " could match " ++ ", ".intercalate candidates
  | excessArgument option argument =>
    "argument " ++ option ++ ": ignored explicit argument " ++ quoted argument
  | missingArgument option => "argument " ++ option ++ ": expected one argument"
  | invalidChoice name given choices =>
    "argument " ++ name ++ ": invalid choice: " ++ quoted given ++ " (choose from " ++
      ", ".intercalate (choices.map quoted) ++ ")"
  | missingOperand name => "the following arguments are required: " ++ name
  | unrecognized arguments => "unrecognized arguments: " ++ " ".intercalate arguments

/-- The names of an option as messages show them. -/
def OptionDecl.shown (o : OptionDecl) : String := "/".intercalate o.names

/-- The name of an operand. -/
def Operand.name : Operand → String
  | one name _ => name
  | command name _ => name

/-- The option that asks for help. -/
def OptionDecl.askHelp : OptionDecl := ⟨["-h", "--help"], [], "show this help message and exit"⟩

end EntityGraph.CommandLine
