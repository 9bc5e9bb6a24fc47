import Accumulator.CommandLine.Request
import Accumulator.Listing

set_option autoImplicit false

/-!
What the program does for a request, given the content of the file that the request names.
-/

namespace Accumulator.CommandLine

/-- The events to log, the text for standard output, a file to write with its name, and the exit
code. -/
structure Response where
  events : List Event
  stdout : String
  file : Option (String × String)
  exit : Nat
deriving DecidableEq, Repr

namespace Response

/-- The exit code of a command line that makes no request. -/
def usageExit : Nat := 2

/-- A response that logs events and ends with a failure. -/
def failure (events : List Event) (message : String) : Response :=
  ⟨events ++ [.failed message], "", none, 1⟩

def cannotOpen (events : List Event) (name reason : String) : Response :=
  failure events ("cant open " ++ name ++ ": " ++ reason)

/-- The response when the file that it writes cannot be opened. -/
def unwritable (r : Response) (reason : String) : Response :=
  match r.file with
  | none => r
  | some (name, _) => cannotOpen r.events name reason

/-- The response when the file that it writes is open and cannot be written. -/
def unfinished (r : Response) (reason : String) : Response := failure r.events reason

/-- The lines that are logged at a level. -/
def log (r : Response) (level : Level) : List String :=
  (r.events.filter fun e => e.level.rank ≤ level.rank).map Event.line

def assemble (source : String) (output : Option String) (text : List Char) : Response :=
  let events := assemblyEvents text
  match Assembly.ofSource text with
  | .error f => failure events f.message
  | .ok assembly =>
    let events := events ++ [.assembled source assembly.words.length]
    let listing := String.ofList (Listing.write assembly.words) ++ "\n"
    match output with
    | none => ⟨events, listing, none, 0⟩
    | some name => ⟨events, "", some (name, listing), 0⟩

/-- The registers after a run, and the screen if it is asked for. -/
def runReport (s : Machine.State) (verbose : Bool) : List String :=
  ["halted after " ++ toString s.cycles ++ " cycles",
   "W     = " ++ toString s.w.toInt,
   "OUT1  = " ++ toString s.outputs.one.toInt,
   "OUT2  = " ++ toString s.outputs.two.toInt]
  ++ if verbose then s.display.rows.map String.ofList else []

/-- Runs words, after the events of getting them. -/
def runWords (events : List Event) (options : RunOptions) (words : List Word) : Response :=
  let p := { Machine.Processor.load words with limit := options.limit }
  let (steps, after, fault) := runEvents p fun _ => options.ports
  match fault with
  | some f => failure (events ++ steps) f.message
  | none =>
    let lines := (runReport after.state options.verbose).map (· ++ "\n")
    ⟨events ++ steps, String.join lines, none, 0⟩

def run (options : RunOptions) (text : List Char) : Response :=
  if options.binary then
    match Listing.read text with
    | .error f => failure [] f.message
    | .ok words => runWords [] options words
  else
    match Assembly.ofSource text with
    | .error f => failure (assemblyEvents text) f.message
    | .ok assembly => runWords (assemblyEvents text) options assembly.words

/-- The stepper logs to its own pane and needs a terminal; here it ends at once. -/
def stepper : Response := ⟨[], "", none, 1⟩

end Response

/-- The response to a request whose file was read, or could not be opened for a reason. -/
def Request.respond (r : Request) (content : Except String String) : Response :=
  match r.command, content with
  | .stepper _, _ => .stepper
  | .assemble source _, .error reason => .cannotOpen [] source reason
  | .run program _, .error reason => .cannotOpen [] program reason
  | .assemble source output, .ok text => .assemble source output text.toList
  | .run _ options, .ok text => .run options text.toList

end Accumulator.CommandLine
