import Accumulator.Expression.Evaluation
import Accumulator.Source.Constants
import Accumulator.Source.Token

set_option autoImplicit false

/-!
Expansion of directives: constants are defined from the top of the source to its end, and each
argument is replaced under the constants that are defined above it.
-/

namespace Accumulator.Source

/-- The text after the marker of an expression, if the marker is there. -/
def afterMarker? : List Char → Option (List Char)
  | 'E' :: 'V' :: 'A' :: 'L' :: rest => some rest
  | _ => none

/-- The decimal text of the expression behind a marker; a text without the marker is returned as it
is. -/
def evalMarked (text : String) : Except Cause String :=
  match afterMarker? text.toList with
  | none => .ok text
  | some expression =>
    match Expression.evaluate expression with
    | .ok n => .ok (toString n)
    | .error _ => .error (.invalidLiteral text)

/-- The value that the substituted fields of a definition stand for. The fields of an expression are
joined without blanks. -/
def definedValue : List String → Except Cause String
  | [] => .error (.malformed .defineIncomplete)
  | [value] => evalMarked value
  | first :: rest =>
    if (afterMarker? first.toList).isSome then evalMarked (String.join (first :: rest))
    else .error (.malformed .defineOverfull)

/-- The name and the value that a directive defines. -/
def Constants.definition (c : Constants) (t : Token) : Except Fault (String × String) :=
  if t.mnemonic = "#define" then
    match t.args with
    | name :: field :: fields =>
      if Text.isIdentifier name then
        match definedValue ((field :: fields).map c.substitute) with
        | .ok value => .ok (name, value)
        | .error cause => .error (t.fault cause)
      else .error (t.malformed .defineIncomplete)
    | _ => .error (t.malformed .defineIncomplete)
  else .error (t.malformed (.unknownDirective t.mnemonic))

/-- A token with its arguments replaced, and evaluated where an expression results. -/
def Constants.expandToken (c : Constants) (t : Token) : Except Fault Token :=
  match t.args.mapM fun argument => evalMarked (c.substitute argument) with
  | .ok args => .ok { t with args }
  | .error cause => .error (t.fault cause)

/-- The tokens without the directives, each under the constants defined before it. -/
def Constants.expand (c : Constants) : List Token → Except Fault (List Token)
  | [] => .ok []
  | t :: rest =>
    if t.kind = .directive then do
      let (name, value) ← c.definition t
      (c.define name value).expand rest
    else do
      let expanded ← c.expandToken t
      let others ← c.expand rest
      return expanded :: others

/-- What the directives among the tokens define, up to the first fault. -/
def Constants.definitions (c : Constants) : List Token → List (String × String)
  | [] => []
  | t :: rest =>
    if t.kind = .directive then
      match c.definition t with
      | .ok (name, value) => (name, value) :: (c.define name value).definitions rest
      | .error _ => []
    else
      match c.expandToken t with
      | .ok _ => c.definitions rest
      | .error _ => []

/-- The tokens of a source after expansion. -/
def expand (tokens : List Token) : Except Fault (List Token) :=
  Constants.empty.expand tokens

end Accumulator.Source
