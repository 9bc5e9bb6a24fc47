import Accumulator.Stepper.Session
import Accumulator.Text.Cell

set_option autoImplicit false

/-!
What the stepper shows: the rows of its panes on a terminal of 200 columns and 60 rows.
-/

namespace Accumulator.Stepper

/-- One variable with its address in the frame and its value, which is unknown outside memory. -/
def variableLine (format : NumberFormat) (state : Machine.State) (name : String) (address : Nat) :
    String :=
  let value := match state.load address with
    | .ok v => format.format v
    | .error _ => "?"
  "  " ++ String.ofList (Text.padRight 10 name.toList) ++ " ["
    ++ String.ofList (Text.padLeft 3 ' ' (toString address).toList) ++ "] " ++ value

/-- The line, the scope and the variables at the program counter. -/
def contextLines (format : NumberFormat) (program : Loaded) : List String :=
  let state := program.processor.state
  let layout := program.assembly.layout
  let line := match layout.sourceAt? state.pc with
    | some (origin, _) => ["Line " ++ toString origin.line ++ ": " ++ origin.text]
    | none => []
  match layout.scopeAt? state.pc with
  | none => line
  | some p =>
    line ++ ["Scope: " ++ p.scope.name]
      ++ (p.vars.zipIdx 1).map fun (name, address) => variableLine format state name address

/-- A stack with its top last. -/
def stackText (stack : List Nat) : String :=
  "[" ++ ", ".intercalate (stack.reverse.map toString) ++ "]"

def stateLines (format : NumberFormat) (program : Loaded) : List String :=
  let s := program.processor.state
  ["PC:     " ++ toString s.pc,
   "W:      " ++ format.format s.w,
   "OUT1:   " ++ format.format s.outputs.one,
   "OUT2:   " ++ format.format s.outputs.two,
   "IN:     " ++ toString s.inputs.one.toInt ++ " " ++ toString s.inputs.two.toInt,
   "Frame:  base " ++ toString s.frameBase ++ " size " ++ toString s.frameSize,
   "Calls:  " ++ stackText s.calls,
   "Frames: " ++ stackText s.frames,
   "Cycles: " ++ toString s.cycles,
   "Screen: flag " ++ toString s.display.flag.toInt ++ " plane "
     ++ toString s.display.secondActive.toNat,
   ""] ++ contextLines format program

/-- The number of memory cells on view. -/
def memoryRows : Nat := 16

/-- The memory cells on view, with their addresses. -/
def visibleCells (s : Machine.State) (scroll : Nat) : List (Machine.Value × Nat) :=
  (s.memory.toList.zipIdx.drop scroll).take memoryRows

def memoryLine (format : NumberFormat) (v : Machine.Value) (address : Nat) : String :=
  String.ofList (Text.padLeft 4 ' ' (toString address).toList) ++ ": " ++ format.format v

/-- Whether a cell belongs to the frame of the executing scope. -/
def isLive (s : Machine.State) (address : Nat) : Bool :=
  s.frameBase < address && address ≤ s.frameBase + s.frameSize

/-- The rows of all panes but the editor's. -/
structure Screen where
  top : List String
  state : List String
  memory : List String
  display : List String
  logs : List String
  liveRows : List Nat
  marked : Pane
deriving DecidableEq, Repr

def paneRows (width height : Nat) (lines : List String) : List String :=
  (Text.pane width height (lines.map String.toList)).map String.ofList

namespace Session

def topLine (s : Session) : String :=
  let pc := (s.program.map fun program => program.processor.state.pc).getD 0
  "Mode: " ++ s.mode.name ++ " | Format (F9): " ++ s.format.name ++ " | Pane (Tab): "
    ++ s.pane.name ++ " | PC: " ++ toString pc ++ " | Press ESC to quit"

def contextLines (s : Session) : List String :=
  match s.program with
  | none => []
  | some program => Stepper.contextLines s.format program

def stateLines (s : Session) : List String :=
  match s.program with
  | none => ["No program loaded (F2)"]
  | some program => Stepper.stateLines s.format program

def visibleCells (s : Session) : List (Machine.Value × Nat) :=
  match s.program with
  | none => []
  | some program => Stepper.visibleCells program.processor.state s.memoryScroll

/-- The rows, counted from zero, whose cells belong to the frame of the executing scope. -/
def liveRows (s : Session) : List Nat :=
  match s.program with
  | none => []
  | some program =>
    (s.visibleCells.zipIdx.filter fun ((_, address), _) =>
      isLive program.processor.state address).map (·.2)

def displayRows (s : Session) : List String :=
  match s.program with
  | none => []
  | some program => program.processor.state.display.rows.map String.ofList

def draw (s : Session) : Screen where
  top := paneRows 198 1 [s.topLine]
  state := paneRows 48 47 (s.stateLines.drop s.stateScroll)
  memory := paneRows 28 47 (s.visibleCells.map fun (v, address) => memoryLine s.format v address)
  display := paneRows 48 47 s.displayRows
  logs := paneRows 198 6 (s.logs.drop (s.logs.length - 6))
  liveRows := s.liveRows
  marked := s.pane

end Session

end Accumulator.Stepper
