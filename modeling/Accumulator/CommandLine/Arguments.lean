set_option autoImplicit false

/-!
The items of a command line: options, long or short, with and without a value, and positional
arguments. A double dash ends the options.
-/

namespace Accumulator.CommandLine

/-- An option that a command knows. A value stands behind an equals sign, behind the letter of a
short option, or in the next argument, where it must not look like an option; some options admit a
negative number there. -/
structure OptionForm where
  long : String
  short : Option Char
  takesValue : Bool
  admitsNegative : Bool
deriving DecidableEq, Repr

inductive Item
  | option (long : String) (value : String)
  | positional (text : String)
deriving DecidableEq, Repr

/-- Whether an argument in the place of a value is one. -/
def OptionForm.admits (form : OptionForm) (argument : List Char) : Bool :=
  match argument with
  | ['-'] => true
  | '-' :: rest => form.admitsNegative && !rest.isEmpty && rest.all Char.isDigit
  | _ => true

/-- Reads a long option without its dashes: what it stands for, or the option whose value is still
to come. -/
def readLong (forms : List OptionForm) (body : List Char) : Option (Item ⊕ OptionForm) := do
  let name := body.takeWhile (· != '=')
  let form ← forms.find? fun form => form.long.toList == name
  match form.takesValue, body.drop name.length with
  | true, _ :: value => return .inl (.option form.long (String.ofList value))
  | true, [] => return .inr form
  | false, [] => return .inl (.option form.long "")
  | false, _ => none

/-- Reads short options that share one dash. Only the last of them can have a value. -/
def readShort (forms : List OptionForm) : List Char → Option (List Item × Option OptionForm)
  | [] => some ([], none)
  | letter :: rest => do
    let form ← forms.find? fun form => form.short == some letter
    if form.takesValue then
      match rest with
      | [] => return ([], some form)
      | '=' :: value => return ([.option form.long (String.ofList value)], none)
      | value => return ([.option form.long (String.ofList value)], none)
    else
      let (items, waiting) ← readShort forms rest
      return (.option form.long "" :: items, waiting)

/-- Reads one argument: the items in it, and the option that waits for the next one. -/
def readArgument (forms : List OptionForm) (argument : String) :
    Option (List Item × Option OptionForm) :=
  match argument.toList with
  | '-' :: '-' :: body =>
    match readLong forms body with
    | some (.inl item) => some ([item], none)
    | some (.inr form) => some ([], some form)
    | none => none
  | '-' :: c :: rest => readShort forms (c :: rest)
  | _ => some ([.positional argument], none)

/-- Reads the arguments of a command. -/
def readItems (forms : List OptionForm) : Option OptionForm → List String → Option (List Item)
  | some _, [] => none
  | none, [] => some []
  | some form, argument :: rest =>
    if form.admits argument.toList then do
      let items ← readItems forms none rest
      return .option form.long argument :: items
    else none
  | none, argument :: rest =>
    if argument = "--" then some (rest.map .positional)
    else do
      let (items, waiting) ← readArgument forms argument
      let others ← readItems forms waiting rest
      return items ++ others

/-- Reads the options before a command's name, and leaves the name and what follows it. -/
def readLeading (forms : List OptionForm) :
    Option OptionForm → List String → Option (List Item × List String)
  | some _, [] => none
  | none, [] => some ([], [])
  | some form, argument :: rest =>
    if form.admits argument.toList then do
      let (items, command) ← readLeading forms none rest
      return (.option form.long argument :: items, command)
    else none
  | none, argument :: rest =>
    if argument = "--" then none
    else do
      match ← readArgument forms argument with
      | ([.positional _], _) => return ([], argument :: rest)
      | (items, waiting) =>
        let (others, command) ← readLeading forms waiting rest
        return (items ++ others, command)

/-- The values that an option is given. -/
def valuesOf (items : List Item) (long : String) : List String :=
  items.filterMap fun
    | .option name value => if name = long then some value else none
    | .positional _ => none

def positionals (items : List Item) : List String :=
  items.filterMap fun
    | .option _ _ => none
    | .positional text => some text

/-- What an option is set to. It may be given once, and has a default otherwise. -/
def setting {α : Type} (items : List Item) (long : String) (read : String → Option α)
    (default : α) : Option α :=
  match valuesOf items long with
  | [] => some default
  | [value] => read value
  | _ => none

end Accumulator.CommandLine
