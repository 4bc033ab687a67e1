import EntityGraph.CommandLine.Grammar
import EntityGraph.Text.Blank

/-!
# Reading arguments

The arguments of a command line by the part that each has in a grammar. Options may stand before and
after operands and be shortened as long as they are told apart; behind a separator everything is an
operand.
-/

namespace EntityGraph.CommandLine

open EntityGraph.Text

/-- An option as it is used: under which name, and with which argument in the same text. -/
structure OptionUse where
  option : OptionDecl
  name : String
  /-- Whether an equals sign stands before the argument. -/
  isMarked : Bool
  argument : Option String
  deriving DecidableEq, Repr

/-- What an argument is. -/
inductive Role
  | operand
  | separator
  | option (use : OptionUse)
  /-- Something like an option that no option is. -/
  | strangeOption
  deriving DecidableEq, Repr

namespace Role

/-- Whether an argument is written as an option. -/
def isOption : Role → Bool
  | option _ | strangeOption => true
  | operand | separator => false

end Role

/-- What ends the reading of arguments early. -/
inductive Halt
  | help
  | misuse (m : Misuse)
  deriving DecidableEq, Repr

/-- What the arguments of a command line are. -/
structure Given where
  operands : List String
  /-- The arguments of options, latest first. -/
  options : List (String × String)
  extras : List String
  deriving DecidableEq, Repr

instance : Inhabited Given := ⟨⟨[], [], []⟩⟩

/-- The mark that ends options. -/
def separatorText : String := "--"

/-- Whether a text is a number with a minus sign; a line feed may follow it. -/
def isNegativeNumber (text : List Char) : Bool :=
  let text := if text.getLast? = some '\n' then text.dropLast else text
  let isDigit (c : Char) : Bool := (scriptDigit? c).isSome
  match text with
  | '-' :: rest =>
    match rest.dropWhile isDigit with
    | [] => !rest.isEmpty
    | '.' :: fraction => !fraction.isEmpty && fraction.all isDigit
    | _ => false
  | _ => false

/-- A text before and after its first equals sign. -/
def splitMark (text : String) : String × Option String :=
  let cs := text.toList
  let before := String.ofList (cs.takeWhile (· ≠ '='))
  match cs.dropWhile (· ≠ '=') with
  | [] => (before, none)
  | _ :: after => (before, some (String.ofList after))

namespace Grammar

/-- The names of all options with the options. -/
def optionNames (g : Grammar) : List (String × OptionDecl) :=
  g.options.flatMap fun o ↦ o.names.map fun name ↦ (name, o)

/-- The ways to read a text as a shortened option, or as a short one with its argument behind it. -/
def candidates (g : Grammar) (text : String) : List OptionUse :=
  if text.startsWith separatorText then
    let (stem, argument) := splitMark text
    g.optionNames.filterMap fun (name, o) ↦
      if name.startsWith stem then some ⟨o, name, argument.isSome, argument⟩ else none
  else
    let short := String.ofList (text.toList.take 2)
    g.optionNames.filterMap fun (name, o) ↦
      if name = short then some ⟨o, name, false, some (String.ofList (text.toList.drop 2))⟩
      else if name.startsWith text then some ⟨o, name, false, none⟩
      else none

/-- What an argument before the separator is. -/
def roleOf (g : Grammar) (text : String) : Except Misuse Role :=
  let (before, argument) := splitMark text
  if !text.startsWith "-" then .ok .operand
  else
    match g.optionNames.lookup text with
    | some o => .ok (.option ⟨o, text, false, none⟩)
    | none =>
      if text = "-" then .ok .operand
      else
        match argument.bind fun a ↦ (g.optionNames.lookup before).map fun o ↦ (o, a) with
        | some (o, a) => .ok (.option ⟨o, before, true, some a⟩)
        | none =>
          match g.candidates text with
          | [use] => .ok (.option use)
          | [] =>
            if isNegativeNumber text.toList || text.contains ' ' then .ok .operand
            else .ok .strangeOption
          | uses => .error (.ambiguous text (uses.map (·.name)))

/-- What arguments are. -/
def roles (g : Grammar) : List String → Except Misuse (List (String × Role))
  | [] => .ok []
  | text :: rest =>
    if text = separatorText then
      .ok ((text, .separator) :: rest.map fun operand ↦ (operand, .operand))
    else do
      let role ← g.roleOf text
      let others ← g.roles rest
      return (text, role) :: others

/-- What becomes of the argument that is written behind the name of an option that takes none:
behind a short name it stands for more short names, and what no name is left over. -/
def excess (g : Grammar) (o : OptionDecl) (isMarked : Bool) : List Char → Halt
  | [] => .misuse (.excessArgument o.shown "")
  | c :: cs =>
    if isMarked || c = '-' then .misuse (.excessArgument o.shown (String.ofList (c :: cs)))
    else
      match g.optionNames.lookup (String.ofList ['-', c]), cs with
      | none, _ => .help
      | some _, [] => .help
      | some next, '=' :: argument => .misuse (.excessArgument next.shown (String.ofList argument))
      | some next, _ => g.excess next false cs

/-- An option with an argument. -/
def choose (o : OptionDecl) (argument : String) (given : Given) : Except Halt Given :=
  if o.choices.contains argument then
    .ok { given with options := (o.shown, argument) :: given.options }
  else .error (.misuse (.invalidChoice o.shown argument o.choices))

/-- The operand at the start of arguments, with what belongs to it, and the other arguments. -/
def takeOperand (operand : Operand) (arguments : List (String × Role)) :
    Option (List String × List (String × Role)) :=
  match arguments.dropWhile (·.2 = .separator) with
  | (text, .operand) :: rest =>
    match operand with
    | .one _ _ => some ([text], rest.dropWhile (·.2 = .separator))
    | .command _ _ => some (arguments.map (·.1), [])
  | _ => none

/-- Taking an operand leaves fewer arguments. -/
private theorem length_takeOperand {operand : Operand} {arguments rest : List (String × Role)}
    {texts : List String} (h : takeOperand operand arguments = some (texts, rest)) :
    rest.length < arguments.length := by
  have shorter := (List.dropWhile_sublist (l := arguments) (·.2 = .separator)).length_le
  unfold takeOperand at h
  split at h
  · next text others found =>
    rw [found, List.length_cons] at shorter
    split at h
    · obtain ⟨-, rfl⟩ := Prod.mk.inj (Option.some.inj h)
      have := (List.dropWhile_sublist (l := others) (·.2 = .separator)).length_le
      omega
    · obtain ⟨-, rfl⟩ := Prod.mk.inj (Option.some.inj h)
      simp only [List.length_nil]
      omega
  · simp at h

/-- The operand at the start of arguments, unless there was one before. -/
def nextOperand (g : Grammar) (given : Given) (arguments : List (String × Role)) :
    Option (List String × List (String × Role)) :=
  if given.operands.isEmpty then takeOperand g.operand arguments else none

private theorem length_nextOperand {g : Grammar} {given : Given}
    {arguments rest : List (String × Role)}
    {texts : List String} (h : g.nextOperand given arguments = some (texts, rest)) :
    rest.length < arguments.length := by
  unfold nextOperand at h
  split at h
  · exact length_takeOperand h
  · simp at h

/-- What is given with an operand. A command must be one of the commands that there are. -/
def withOperand (g : Grammar) (texts : List String) (given : Given) : Except Halt Given :=
  match g.operand, texts with
  | .command name commands, text :: _ =>
    if (commands.map (·.1)).contains text then .ok { given with operands := texts }
    else .error (.misuse (.invalidChoice name text (commands.map (·.1))))
  | _, _ => .ok { given with operands := texts }

/-- What is given with an option that has its argument in the same text. -/
def withArgument (g : Grammar) (use : OptionUse) (argument : String) (given : Given) :
    Except Halt Given :=
  if !use.option.choices.isEmpty then choose use.option argument given
  else if use.name.startsWith separatorText then
    .error (.misuse (.excessArgument use.option.shown argument))
  else .error (g.excess use.option use.isMarked argument.toList)

/-- Gives every argument its part. -/
def assign (g : Grammar) (given : Given) (arguments : List (String × Role)) : Except Halt Given :=
  match arguments with
  | [] => .ok given
  | (text, .strangeOption) :: rest =>
    g.assign { given with extras := given.extras ++ [text] } rest
  | (_, .option use) :: rest =>
    match use.argument with
    | some argument => do g.assign (← g.withArgument use argument given) rest
    | none =>
      if use.option.choices.isEmpty then .error .help
      else
        match rest with
        | (argument, .operand) :: others => do g.assign (← choose use.option argument given) others
        | _ => .error (.misuse (.missingArgument use.option.shown))
  | (text, role) :: rest =>
    match h : g.nextOperand given ((text, role) :: rest) with
    | some (texts, others) =>
      have : others.length ≤ rest.length := Nat.le_of_lt_succ (length_nextOperand h)
      do g.assign (← g.withOperand texts given) others
    | none => g.assign { given with extras := given.extras ++ [text] } rest
termination_by arguments.length

/-- What arguments give; the operand must be among them. -/
def read (g : Grammar) (arguments : List String) : Except Halt Given := do
  let roles ← (g.roles arguments).mapError .misuse
  let given ← g.assign default roles
  if given.operands.isEmpty then .error (.misuse (.missingOperand g.operand.name)) else return given

end Grammar

end EntityGraph.CommandLine
