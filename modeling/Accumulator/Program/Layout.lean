import Accumulator.Program.Scope

set_option autoImplicit false

/-!
Addresses: of scopes in the program, and of variables in their frame. The main scope begins at
address one, a halt word follows it, and then come the functions back to back.
-/

namespace Accumulator

open Source

/-- A scope at its place, with its variables in the order of their declarations. -/
structure Placement where
  scope : Scope
  base : Nat
  vars : List String
deriving DecidableEq, Repr

structure Layout where
  main : Placement
  functions : List Placement
deriving DecidableEq, Repr

/-- Adds the variable that a token declares. -/
def declareVariable (declared : List String) (t : Token) : Except Fault (List String) :=
  match t.args with
  | [name] =>
    if !Text.isIdentifier name then .error (t.malformed (.invalidVariable name))
    else if declared.contains name then .error (t.fault (.duplicateVariable name))
    else .ok (declared ++ [name])
  | _ => .error (t.malformed .variableArity)

/-- The variables of a scope in the order of their declarations. -/
def Scope.vars (s : Scope) : Except Fault (List String) :=
  (s.tokens.filter Token.isDeclaration).foldlM declareVariable []

namespace Placement

def size (p : Placement) : Nat := p.scope.size

/-- Whether a scope owns the word at an address. -/
def owns (p : Placement) (address : Nat) : Bool :=
  p.base ≤ address && address < p.base + p.size

/-- A variable's address in its frame: its rank among the declarations, from one on. -/
def frameAddress? (p : Placement) (name : String) : Option Nat :=
  (p.vars.idxOf? name).map (· + 1)

def labelAddress? (p : Placement) (name : String) : Option Nat :=
  (p.scope.label? name).map (p.base + ·)

/-- The line and the scope that each word of a scope comes from. -/
def origins (p : Placement) : List (Origin × String) :=
  p.scope.tokens.map fun t => (t.origin, p.scope.name)

end Placement

/-- Places scopes one after the other. -/
def placeFrom : Nat → List Scope → Except Fault (List Placement)
  | _, [] => .ok []
  | base, s :: rest => do
    let vars ← s.vars
    let others ← placeFrom (base + s.size) rest
    return ⟨s, base, vars⟩ :: others

namespace Layout

def ofProgram (p : Program) : Except Fault Layout := do
  let vars ← p.main.vars
  let functions ← placeFrom (p.main.size + 2) p.functions
  return ⟨⟨p.main, 1, vars⟩, functions⟩

def placements (l : Layout) : List Placement := l.main :: l.functions

/-- The number of words of the program, the halt word included. -/
def size (l : Layout) : Nat := l.functions.foldl (fun n p => n + p.size) (l.main.size + 1)

def function? (l : Layout) (name : String) : Option Placement :=
  l.functions.find? fun p => p.scope.name == name

/-- The scope that owns the word at an address. -/
def scopeAt? (l : Layout) (address : Nat) : Option Placement :=
  l.placements.find? fun p => p.owns address

/-- The line and the scope that each word of the program comes from, in the order of the words. The
halt word comes from none. -/
def origins (l : Layout) : List (Option (Origin × String)) :=
  l.main.origins.map some ++ none :: (l.functions.flatMap Placement.origins).map some

/-- The line and the scope of each word that has them, by address. The words are counted from one
on. -/
def sources (l : Layout) : List (Nat × Origin × String) :=
  (l.origins.zipIdx 1).filterMap fun (source, address) => source.map (address, ·)

def sourceAt? (l : Layout) (address : Nat) : Option (Origin × String) :=
  l.sources.lookup address

end Layout

end Accumulator
