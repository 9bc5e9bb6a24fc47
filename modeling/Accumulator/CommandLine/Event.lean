import Accumulator.Assembly
import Accumulator.Machine.Processor
import Accumulator.Text.Escape

set_option autoImplicit false

/-!
The events that are logged while a source is assembled and its program runs, each with its level and
its text.
-/

namespace Accumulator.CommandLine

/-- Levels from the most to the least urgent. -/
inductive Level
  | error
  | warn
  | info
  | debug
  | trace
deriving DecidableEq, Repr

namespace Level

/-- One for errors, and more for what is less urgent. -/
def rank : Level → Nat
  | .error => 1
  | .warn => 2
  | .info => 3
  | .debug => 4
  | .trace => 5

def name : Level → String
  | .error => "ERROR"
  | .warn => "WARN"
  | .info => "INFO"
  | .debug => "DEBUG"
  | .trace => "TRACE"

def all : List Level := [.error, .warn, .info, .debug, .trace]

end Level

inductive Event
  | lexed (tokens : Nat)
  | defined (name value : String)
  | expanded (tokens constants : Nat)
  | unreturned (function : String) (line : Nat)
  | resolved (functions : Nat)
  | allocated (words scopes : Nat)
  | generated (words : Nat)
  | assembled (source : String) (words : Nat)
  | stepped (pc : Nat) (mnemonic : String) (literal : Nat) (w : Int)
  | halted (cycles : Nat) (w : Int)
  | failed (message : String)
deriving DecidableEq, Repr

namespace Event

def level : Event → Level
  | .lexed _ | .expanded _ _ | .resolved _ | .allocated _ _ | .generated _ => .debug
  | .defined _ _ | .stepped _ _ _ _ => .trace
  | .unreturned _ _ => .warn
  | .assembled _ _ | .halted _ _ => .info
  | .failed _ => .error

/-- The part of the program that logs an event, and what it says. What is quoted in a message, and
not recorded as a value beside it, is escaped. -/
def text : Event → String
  | .lexed tokens => "microasm::lexer: lexed source tokens=" ++ toString tokens
  | .defined name value =>
    "microasm::preprocessor: defined constant name=" ++ name ++ " value=" ++ value
  | .expanded tokens constants =>
    "microasm::preprocessor: preprocessed source tokens=" ++ toString tokens ++ " constants="
      ++ toString constants
  | .unreturned function line =>
    "microasm::parser: function body does not end with a return function=" ++ function
      ++ " line=" ++ toString line
  | .resolved functions => "microasm::parser: resolved scopes functions=" ++ toString functions
  | .allocated words scopes =>
    "microasm::symbols: allocated addresses words=" ++ toString words ++ " scopes="
      ++ toString scopes
  | .generated words => "microasm::assembler: generated code words=" ++ toString words
  | .assembled source words =>
    "microasm: assembled " ++ Text.escape source ++ " words=" ++ toString words
  | .stepped pc mnemonic literal w =>
    "microasm::processor: step pc=" ++ toString pc ++ " mnemonic=" ++ mnemonic ++ " literal="
      ++ toString literal ++ " w=" ++ toString w
  | .halted cycles w =>
    "microasm::processor: program halted cycles=" ++ toString cycles ++ " w=" ++ toString w
  | .failed message => "microasm: " ++ Text.escape message

/-- The line that is logged for an event. -/
def line (e : Event) : String := e.level.name ++ " " ++ e.text

end Event

open Source

/-- The events of assembling a source text, up to the stage that rejects it. -/
def assemblyEvents (text : List Char) : List Event :=
  match Token.scan text with
  | .error _ => []
  | .ok tokens =>
    let definitions := Constants.empty.definitions tokens
    .lexed tokens.length :: definitions.map (fun (name, value) => .defined name value) ++
    match Source.expand tokens with
    | .error _ => []
    | .ok expanded =>
      let constants :=
        definitions.foldl (fun c (name, value) => c.define name value) Constants.empty
      .expanded expanded.length constants.size ::
        (Nesting.start.unreturned expanded).map (fun (s, t) => .unreturned s.name t.origin.line) ++
      match Program.ofTokens expanded with
      | .error _ => []
      | .ok program =>
        .resolved program.functions.length ::
        match Layout.ofProgram program with
        | .error _ => []
        | .ok layout =>
          .allocated layout.size layout.placements.length ::
          match layout.code with
          | .error _ => []
          | .ok words => [.generated words.length]

/-- The event of a cycle that begins in a state, if there is a known instruction to execute. -/
def stepEvent? (code : Machine.Code) (s : Machine.State) : Option Event := do
  let word ← code.fetch? s.pc
  let i ← Instruction.decode? word.opcode
  return .stepped s.pc i.mnemonic word.literal.toNat s.w.toInt

/-- The events of the cycles of a run and of its end, and the processor after it. A run that halts
or is at its ceiling does not begin another cycle. -/
def runEvents (p : Machine.Processor) (input : Machine.Input) :
    List Event × Machine.Processor × Option Machine.Fault :=
  let (steps, after, fault) :=
    p.runObserving (fun events s => events.push (stepEvent? p.code s)) #[stepEvent? p.code p.state]
      input
  let events := match fault with
    | none =>
      steps.pop.toList.reduceOption ++ [.halted after.state.cycles after.state.w.toInt]
    | some (.cycleTimeout _) => steps.pop.toList.reduceOption
    | some _ => steps.toList.reduceOption
  (events, after, fault)

end Accumulator.CommandLine
