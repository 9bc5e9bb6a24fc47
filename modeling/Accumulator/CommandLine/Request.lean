import Accumulator.CommandLine.Arguments
import Accumulator.CommandLine.Event
import Accumulator.Text.Numeral

set_option autoImplicit false

/-!
What a command line asks for: to assemble a source, to run a program or to step through it.
-/

namespace Accumulator.CommandLine

structure RunOptions where
  binary : Bool
  limit : Nat
  ports : Machine.Ports
  verbose : Bool
deriving DecidableEq, Repr

inductive Command
  | assemble (source : String) (output : Option String)
  | run (program : String) (options : RunOptions)
  | stepper (source : Option String)
deriving DecidableEq, Repr

structure Request where
  level : Level
  command : Command
deriving DecidableEq, Repr

/-- A natural number, behind a plus sign or not. -/
def readNatural (text : List Char) : Option Nat :=
  match text with
  | '+' :: digits => Text.readDigits 10 digits
  | digits => Text.readDigits 10 digits

/-- An integer, behind a sign or not. -/
def readInteger (text : List Char) : Option Int :=
  match text with
  | '-' :: digits => (Text.readDigits 10 digits).map fun n => -(n : Int)
  | text => (readNatural text).map fun n => (n : Int)

/-- A ceiling on cycles is counted in 64 bits. -/
def readLimit (text : String) : Option Nat :=
  (readNatural text.toList).filter (· < 0x10000000000000000)

/-- The value of a port is a signed number of 32 bits. -/
def readPort (text : String) : Option Machine.Value :=
  match readInteger text.toList with
  | some n => if -0x80000000 ≤ n ∧ n < 0x80000000 then some (BitVec.ofInt 32 n) else none
  | none => none

/-- A level is named in letters of either case, or by its rank. -/
def readLevel (text : String) : Option Level :=
  Level.all.find? fun level =>
    level.name.toList == text.toList.map Char.toUpper || readNatural text.toList == some level.rank

def readFileName (text : String) : Option String :=
  if text = "" then none else some text

/-- A flag is given without a value. -/
def flag (items : List Item) (long : String) : Option Bool :=
  setting items long (fun _ => some true) false

def levelForm : OptionForm := ⟨"log-level", some 'l', true, false⟩

def assembleForms : List OptionForm := [levelForm, ⟨"output", some 'o', true, false⟩]

def runForms : List OptionForm :=
  [levelForm, ⟨"binary", some 'b', false, false⟩, ⟨"cycle-limit", none, true, false⟩,
   ⟨"input1", none, true, true⟩, ⟨"input2", none, true, true⟩,
   ⟨"verbose", some 'v', false, false⟩]

/-- Options that every command shares may stand before its name as well, where they give way to
those behind it. -/
def readLevelSetting (leading items : List Item) : Option Level := do
  let outer ← setting leading levelForm.long readLevel .warn
  setting items levelForm.long readLevel outer

def readCommand (name : String) (arguments : List String) : Option (List Item × Command) :=
  if name = "asm" then do
    let items ← readItems assembleForms none arguments
    let output ← setting items "output" (fun text => (readFileName text).map some) none
    match positionals items with
    | [source] => return (items, .assemble (← readFileName source) output)
    | _ => none
  else if name = "run" then do
    let items ← readItems runForms none arguments
    let binary ← flag items "binary"
    let limit ← setting items "cycle-limit" readLimit Machine.defaultLimit
    let one ← setting items "input1" readPort 0
    let two ← setting items "input2" readPort 0
    let verbose ← flag items "verbose"
    match positionals items with
    | [program] =>
      let options := ⟨binary, limit, ⟨one, two⟩, verbose⟩
      return (items, .run (← readFileName program) options)
    | _ => none
  else if name = "tui" then do
    let items ← readItems [levelForm] none arguments
    match positionals items with
    | [] => return (items, .stepper none)
    | [source] => return (items, .stepper (some (← readFileName source)))
    | _ => none
  else none

/-- The request that the arguments make, if they make one. -/
def Request.ofArguments? (arguments : List String) : Option Request := do
  match ← readLeading [levelForm] none arguments with
  | (leading, name :: rest) =>
    let (items, command) ← readCommand name rest
    return ⟨← readLevelSetting leading items, command⟩
  | (_, []) => none

/-- The file that a request reads. -/
def Request.file? (r : Request) : Option String :=
  match r.command with
  | .assemble source _ => some source
  | .run program _ => some program
  | .stepper source => source

end Accumulator.CommandLine
