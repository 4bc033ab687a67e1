import EntityGraph.CommandLine.Grammar

/-!
# Usage and help

The texts that say how a program is called.
-/

namespace EntityGraph.CommandLine

/-- The choices between braces. -/
def braced (choices : List String) : String := "\x7b" ++ ",".intercalate choices ++ "\x7d"

/-- An option as the usage shows it, by its first name. -/
def OptionDecl.usage (o : OptionDecl) : String :=
  let name := o.names.headD ""
  "[" ++ (if o.choices.isEmpty then name else name ++ " " ++ braced o.choices) ++ "]"

/-- An operand as the usage shows it. -/
def Operand.usage : Operand → String
  | one name _ => name
  | command _ commands => braced (commands.map (·.1)) ++ " ..."

/-- An item of a help text: how far it is indented, its heading and what is said about it. -/
structure HelpItem where
  indent : Nat
  heading : String
  help : String

namespace HelpItem

/-- The item of an option, by all its names. -/
def ofOption (o : OptionDecl) : HelpItem :=
  let form (name : String) : String :=
    if o.choices.isEmpty then name else name ++ " " ++ braced o.choices
  ⟨2, ", ".intercalate (o.names.map form), o.help⟩

/-- The items of an operand; commands stand below the list of their names. -/
def ofOperand : Operand → List HelpItem
  | .one name help => [⟨2, name, help⟩]
  | .command _ commands =>
    ⟨2, braced (commands.map (·.1)), ""⟩ :: commands.map fun (name, help) ↦ ⟨4, name, help⟩

/-- The column at which help starts at the latest. -/
def lastColumn : Nat := 24

/-- Spaces. -/
def spaces (n : Nat) : String := String.ofList (List.replicate n ' ')

/-- The lines of an item whose help starts at a column, two columns behind its heading at least. -/
def text (column : Nat) (i : HelpItem) : String :=
  let width := i.indent + i.heading.length
  let heading := spaces i.indent ++ i.heading
  if i.help = "" then heading ++ "\n"
  else if width + 2 ≤ column then heading ++ spaces (column - width) ++ i.help ++ "\n"
  else heading ++ "\n" ++ spaces column ++ i.help ++ "\n"

/-- The column at which the help of items starts. -/
def column (items : List HelpItem) : Nat :=
  min lastColumn (items.foldl (fun n i ↦ max n (i.indent + i.heading.length)) 0 + 2)

end HelpItem

namespace Grammar

/-- The line that says how a program is called. -/
def usage (g : Grammar) : String :=
  "usage: " ++ " ".intercalate (g.program :: g.options.map (·.usage) ++ [g.operand.usage]) ++ "\n"

/-- The help of a program. -/
def help (g : Grammar) : String :=
  let operands := HelpItem.ofOperand g.operand
  let options := g.options.map HelpItem.ofOption
  let column := HelpItem.column (operands ++ options)
  let description := if g.description = "" then "" else g.description ++ "\n\n"
  let items (l : List HelpItem) : String := String.join (l.map (·.text column))
  g.usage ++ "\n" ++ description ++ "positional arguments:\n" ++ items operands ++ "\noptions:\n" ++
    items options

/-- What a program says about a misuse. -/
def complaint (g : Grammar) (m : Misuse) : String :=
  g.usage ++ g.program ++ ": error: " ++ m.message ++ "\n"

end Grammar

end EntityGraph.CommandLine
