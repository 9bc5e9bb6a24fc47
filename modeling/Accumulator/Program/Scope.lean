import Accumulator.Source.Token

set_option autoImplicit false

/-!
Scopes: the main program and its functions, each with its own variables and labels. A finished scope
begins with its declarations, so that the frame is sized before any other word runs, and holds one
token for each word that it emits.
-/

namespace Accumulator

open Source

/-- The name of the scope outside every function. It is no function's name. -/
def mainName : String := "__main__"

structure Scope where
  name : String
  header : Option Token
  params : List String
  tokens : List Token
  labels : List (String × Nat)
  terminator : Option Token
deriving DecidableEq, Repr

namespace Scope

/-- The number of words that a scope emits. -/
def size (s : Scope) : Nat := s.tokens.length

def label? (s : Scope) (name : String) : Option Nat := s.labels.lookup name

end Scope

/-- An instruction that stands on the line of another token. -/
def Source.Token.derive (t : Token) (mnemonic argument : String) : Token :=
  ⟨.instruction, mnemonic, [argument], t.origin⟩

def Source.Token.isDeclaration (t : Token) : Bool := t.mnemonic == "VAR"

def Source.Token.isLabel (t : Token) : Bool := t.kind == .label

/-- The instructions that pass an argument of a call: load it, then store it in a cell past the
caller's frame. -/
def passArgument (call : Token) (argument : String) (cell : Nat) : List Token :=
  [call.derive (if Text.isIdentifier argument then "MOVFW" else "MOVLW") argument,
   call.derive "MOVWF" (toString cell)]

/-- The tokens that a token of the body emits in a frame of `frame` variables: none for a label, and
for a call one pair per argument before the call itself. -/
def expandBody (frame : Nat) (t : Token) : List Token :=
  if t.isLabel then []
  else if t.mnemonic = "CALL" then
    (t.args.tail.zipIdx 1).flatMap (fun (argument, i) => passArgument t argument (frame + i)) ++ [t]
  else [t]

/-- The offsets of the labels among body tokens, where `offset` words come before the first one. -/
def labelOffsets (frame : Nat) : Nat → List Token → List (String × Nat)
  | _, [] => []
  | offset, t :: rest =>
    if t.isLabel then (t.mnemonic, offset) :: labelOffsets frame offset rest
    else labelOffsets frame (offset + (expandBody frame t).length) rest

/-- The scope of a sequence of lines. Every token with the mnemonic of a declaration counts as one,
a label too, which then keeps the offset zero. -/
def Scope.ofBody (name : String) (header : Option Token) (params : List String)
    (body : List Token) (terminator : Option Token) : Scope :=
  let declarations := body.filter Token.isDeclaration
  let code := body.filter fun t => !t.isDeclaration
  let frame := declarations.length
  { name, header, params, terminator
    tokens := declarations ++ code.flatMap (expandBody frame)
    labels := (declarations.filter Token.isLabel).map (fun t => (t.mnemonic, 0))
      ++ labelOffsets frame frame code }

/-- Whether the last word of a scope leaves it. -/
def Scope.returns (s : Scope) : Bool :=
  s.tokens.getLast?.any fun t => ["RET", "RETLW", "RETFW", "GOTO"].contains t.mnemonic

/-- A program: its main scope, and its functions in the order of their headers. -/
structure Program where
  main : Scope
  functions : List Scope
deriving DecidableEq, Repr

def Program.scopes (p : Program) : List Scope := p.main :: p.functions

end Accumulator
