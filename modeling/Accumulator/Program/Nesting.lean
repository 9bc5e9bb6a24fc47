import Accumulator.Program.Scope

set_option autoImplicit false

/-!
The division of a token sequence into scopes. Functions do not nest; the lines outside of them,
which may surround them, make up the main scope.
-/

namespace Accumulator

open Source

/-- A function whose end has not come yet. -/
structure OpenFunction where
  header : Token
  name : String
  params : List String
  body : List Token
deriving DecidableEq, Repr

/-- What is known of a program after some of its tokens. -/
structure Nesting where
  main : List Token
  functions : List Scope
  current : Option OpenFunction
deriving DecidableEq, Repr

namespace Nesting

def start : Nesting := ⟨[], [], none⟩

/-- The lines of the scope that the next token belongs to. -/
def body (n : Nesting) : List Token :=
  match n.current with
  | none => n.main
  | some f => f.body

def push (n : Nesting) (t : Token) : Nesting :=
  match n.current with
  | none => { n with main := n.main ++ [t] }
  | some f => { n with current := some { f with body := f.body ++ [t] } }

/-- Places a label, which no other label of its scope may share the name of. -/
def addLabel (n : Nesting) (name : String) (t : Token) : Except Fault Nesting :=
  if n.body.any fun other => other.isLabel && other.mnemonic == name then
    .error (t.fault (.duplicateLabel name))
  else .ok (n.push ⟨.label, name, [], t.origin⟩)

def unterminated (f : OpenFunction) : Fault :=
  f.header.fault (.unterminatedFunction f.name)

/-- Opens a function. Its parameters are the first variables that it declares. -/
def openFunction (n : Nesting) (header : Token) : Except Fault Nesting :=
  match n.current, header.args with
  | some f, _ => .error (unterminated f)
  | none, [] => .error (header.malformed .functionUnnamed)
  | none, name :: params =>
    match (name :: params).find? fun text => !Text.isIdentifier text with
    | some text => .error (header.malformed (.invalidIdentifier text))
    | none =>
      if name = mainName ∨ n.functions.any fun s => s.name == name then
        .error (header.fault (.duplicateFunction name))
      else
        let body := params.map (header.derive "VAR")
        .ok { n with current := some ⟨header, name, params, body⟩ }

def closeFunction (n : Nesting) (terminator : Token) : Except Fault Nesting :=
  match n.current with
  | none => .error (terminator.malformed .endOutsideFunction)
  | some f =>
    if terminator.args = [] then
      let scope := Scope.ofBody f.name (some f.header) f.params f.body (some terminator)
      .ok { n with functions := n.functions ++ [scope], current := none }
    else .error (terminator.malformed .endWithArguments)

/-- Takes the next token in. -/
def accept (n : Nesting) (t : Token) : Except Fault Nesting :=
  match t.kind with
  | .keyword .function => n.openFunction t
  | .keyword .finish => n.closeFunction t
  | .keyword .label =>
    match t.args with
    | [name] =>
      if Text.isIdentifier name then n.addLabel name t
      else .error (t.malformed (.invalidLabel name))
    | _ => .error (t.malformed .labelArity)
  | .label => n.addLabel t.mnemonic t
  | .instruction => .ok (n.push t)
  | .directive => .error (t.malformed .unexpectedDirective)

/-- The program, if every function has come to its end. -/
def finish (n : Nesting) : Except Fault Program :=
  match n.current with
  | some f => .error (unterminated f)
  | none => .ok ⟨Scope.ofBody mainName none [] n.main none, n.functions⟩

/-- The functions whose last word does not leave them, each with the token that ends it, as far as
the tokens are accepted. -/
def unreturned (n : Nesting) : List Token → List (Scope × Token)
  | [] => []
  | t :: rest =>
    match n.accept t with
    | .error _ => []
    | .ok next =>
      let here := if t.kind = .keyword .finish then next.functions.getLast?.toList else []
      (here.filter fun s => !s.returns).map (fun s => (s, t)) ++ next.unreturned rest

end Nesting

/-- The program that a token sequence describes. -/
def Program.ofTokens (tokens : List Token) : Except Fault Program := do
  let n ← tokens.foldlM Nesting.accept Nesting.start
  n.finish

end Accumulator
