import Accumulator.Assembly
import Accumulator.Machine.Bounds

set_option autoImplicit false

/-!
Sessions of the interactive stepper: a source text under edit and the program that was loaded from
it. While the text is being edited, the next step or run assembles and loads it anew.
-/

namespace Accumulator.Stepper

inductive Mode
  | editing
  | stepping
  | running
deriving DecidableEq, Repr

/-- Stepping ends the editing of the text. -/
def Mode.stepped : Mode → Mode
  | .editing => .stepping
  | mode => mode

def Mode.name : Mode → String
  | .editing => "Editing"
  | .stepping => "Stepping"
  | .running => "Running"

inductive Pane
  | editor
  | state
  | memory
  | display
  | logs
deriving DecidableEq, Repr

def Pane.name : Pane → String
  | .editor => "Editor"
  | .state => "State"
  | .memory => "Memory"
  | .display => "Display"
  | .logs => "Logs"

inductive NumberFormat
  | hex
  | binary
  | decimal
deriving DecidableEq, Repr

namespace NumberFormat

def name : NumberFormat → String
  | .hex => "Hex"
  | .binary => "Binary"
  | .decimal => "Decimal"

/-- The text of a value: all its 32 bits in the bases two and sixteen, or a signed number. -/
def format (f : NumberFormat) (v : Machine.Value) : String :=
  match f with
  | .hex => "0x" ++ String.ofList (Text.hexadecimal 8 v.toNat)
  | .binary => "0b" ++ String.ofList (Text.bits v)
  | .decimal => toString v.toInt

end NumberFormat

/-- A program with all that is known of its source, and the processor that executes it. -/
structure Loaded where
  assembly : Assembly
  processor : Machine.Processor
deriving DecidableEq, Repr

structure Session where
  editor : List String
  program : Option Loaded
  ports : Machine.Ports
  pane : Pane
  format : NumberFormat
  mode : Mode
  stateScroll : Nat
  memoryScroll : Nat
  logs : List String
deriving DecidableEq, Repr

namespace Session

def editorLines (source : List Char) : List String :=
  (Text.lines source).map String.ofList

/-- A session on a source text, with nothing loaded. -/
def start (source : List Char) : Session where
  editor := editorLines source
  program := none
  ports := ⟨0, 0⟩
  pane := .editor
  format := .decimal
  mode := .editing
  stateScroll := 0
  memoryScroll := 0
  logs := []

def source (s : Session) : List Char := (Text.joinLines s.editor).toList

def log (s : Session) (line : String) : Session := { s with logs := s.logs ++ [line] }

/-- Assembles the text in the editor and loads the program. A text that does not assemble leaves
nothing loaded. The flag tells whether a program was loaded. -/
def load (s : Session) : Session × Bool :=
  match Assembly.ofSource s.source with
  | .ok assembly =>
    let line := "Assembled " ++ toString assembly.words.length
      ++ " words. Processor reset and loaded."
    ({ s.log line with
        program := some ⟨assembly, Machine.Processor.load assembly.words⟩
        memoryScroll := 0 }, true)
  | .error f => ({ s.log ("Compile error: " ++ f.message) with program := none }, false)

/-- Takes the result of a step or a run in. A fault and a halt both return to editing. -/
def settle (s : Session) (program : Loaded) (fault : Option Machine.Fault) : Session :=
  let s := { s with program := some program }
  match fault with
  | some f => { s.log ("Stopped: " ++ f.message) with mode := .editing }
  | none =>
    let state := program.processor.state
    if state.halted then
      { s.log ("Halted after " ++ toString state.cycles ++ " cycles.") with mode := .editing }
    else s

/-- The session after the text is loaded, if it had to be and could be. -/
def loadIfEditing (s : Session) : Session × Bool :=
  if s.mode = .editing then s.load else (s, true)

/-- Executes one cycle. -/
def step (s : Session) : Session :=
  match s.loadIfEditing with
  | (s, false) => s
  | (s, true) =>
    let s := { s with mode := s.mode.stepped }
    match s.program with
    | none => s
    | some program =>
      let (processor, fault) := program.processor.step fun _ => s.ports
      s.settle { program with processor } fault

/-- Executes the program to its end. -/
def run (s : Session) : Session :=
  match s.loadIfEditing with
  | (s, false) => s
  | (s, true) =>
    let s := { s with mode := .running }
    match s.program with
    | none => s
    | some program =>
      let (processor, fault) := program.processor.run fun _ => s.ports
      s.settle { program with processor } fault

/-- Whether the program can be executed in this way from here and does not break off. -/
def goesOn (s : Session) (execute : Machine.Processor → Machine.Input →
    Option (Machine.Processor × Option Machine.Fault)) : Bool :=
  match s.loadIfEditing with
  | (_, false) => true
  | (s, true) => s.program.all fun program => (execute program.processor fun _ => s.ports).isSome

/-- Executes one cycle, unless it breaks off. -/
def step? (s : Session) : Option Session := if s.goesOn (·.step? ·) then some s.step else none

/-- Executes the program to its end, unless it breaks off. -/
def run? (s : Session) : Option Session := if s.goesOn (·.run? ·) then some s.run else none

/-- Puts another text into the editor. What is loaded stays loaded. -/
def edit (s : Session) (source : List Char) : Session :=
  { s with editor := editorLines source, mode := .editing }

def setFormat (s : Session) (format : NumberFormat) : Session := { s with format }

def setPorts (s : Session) (ports : Machine.Ports) : Session := { s with ports }

def setPane (s : Session) (pane : Pane) : Session := { s with pane }

def scroll (s : Session) (stateScroll memoryScroll : Nat) : Session :=
  { s with stateScroll, memoryScroll }

end Session

end Accumulator.Stepper
