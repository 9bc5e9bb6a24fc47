import Accumulator.Instruction.Table
import Accumulator.Source.Fault
import Accumulator.Text.Line

set_option autoImplicit false

/-!
Tokens: each line that holds more than a comment is one token, its first field the mnemonic and the
other fields the arguments.
-/

namespace Accumulator.Source

/-- The words that open and close a function and place a label. -/
inductive Keyword
  | function
  | finish
  | label
deriving DecidableEq, Repr

def Keyword.ofName? (name : String) : Option Keyword :=
  if name = "FN" then some .function
  else if name = "END" then some .finish
  else if name = "LABEL" then some .label
  else none

inductive Kind
  | directive
  | instruction
  | keyword (word : Keyword)
  | label
deriving DecidableEq, Repr

structure Token where
  kind : Kind
  mnemonic : String
  args : List String
  origin : Origin
deriving DecidableEq, Repr

def Token.fault (t : Token) (cause : Cause) : Fault :=
  ⟨t.origin, cause⟩

def Token.malformed (t : Token) (why : Malformed) : Fault :=
  t.fault (.malformed why)

/-- The part of a line before its first comment marker, which is a double slash or a semicolon. -/
def stripComment : List Char → List Char
  | [] => []
  | ';' :: _ => []
  | '/' :: '/' :: _ => []
  | c :: cs => c :: stripComment cs

/-- What a line is, by its mnemonic. A lone identifier that means nothing else is a label. -/
def Kind.ofFields? (mnemonic : String) (args : List String) : Option Kind :=
  if mnemonic.toList.head? = some '#' then some .directive
  else if Instruction.isMnemonic mnemonic then some .instruction
  else match Keyword.ofName? mnemonic with
    | some word => some (.keyword word)
    | none => if args = [] ∧ Text.isIdentifier mnemonic then some .label else none

/-- The token of the line with a number; a line without fields has none. -/
def Token.ofLine? (number : Nat) (line : List Char) : Except Fault (Option Token) :=
  let content := Text.trim (stripComment line)
  let origin : Origin := ⟨number, String.ofList content⟩
  match (Text.fields content).map String.ofList with
  | [] => .ok none
  | mnemonic :: args =>
    match Kind.ofFields? mnemonic args with
    | some kind => .ok (some ⟨kind, mnemonic, args, origin⟩)
    | none => .error ⟨origin, .unknownToken⟩

/-- The tokens of lines that are numbered from `first` on. -/
def Token.ofLines (first : Nat) : List (List Char) → Except Fault (List Token)
  | [] => .ok []
  | line :: rest => do
    let token ← Token.ofLine? first line
    let tokens ← Token.ofLines (first + 1) rest
    return token.toList ++ tokens

/-- The tokens of a source text. -/
def Token.scan (text : List Char) : Except Fault (List Token) :=
  Token.ofLines 1 (Text.lines text)

end Accumulator.Source
