set_option autoImplicit false

/-!
Why a source text is rejected, and the line that is blamed for it.
-/

namespace Accumulator

/-- A line of the source: its number, from one on, and its text without comment and outer blanks. -/
structure Origin where
  line : Nat
  text : String
deriving DecidableEq, Repr

namespace Source

/-- A line whose words do not fit together. -/
inductive Malformed
  | unknownDirective (mnemonic : String)
  | defineIncomplete
  | defineOverfull
  | functionUnnamed
  | invalidIdentifier (text : String)
  | endOutsideFunction
  | endWithArguments
  | labelArity
  | invalidLabel (text : String)
  | unexpectedDirective
  | variableArity
  | invalidVariable (text : String)
  | operandUnwanted (mnemonic : String)
  | callUnnamed
  | operandArity (mnemonic : String)
  | callArity (function : String) (taken given : Nat)
deriving DecidableEq, Repr

def Malformed.message : Malformed → String
  | .unknownDirective mnemonic => "unknown directive '" ++ mnemonic ++ "'"
  | .defineIncomplete => "#define needs a name and a value"
  | .defineOverfull => "#define takes a single value"
  | .functionUnnamed => "FN needs a function name"
  | .invalidIdentifier text => "invalid identifier '" ++ text ++ "'"
  | .endOutsideFunction => "END outside of a function"
  | .endWithArguments => "END takes no arguments"
  | .labelArity => "LABEL takes exactly one name"
  | .invalidLabel text => "invalid label name '" ++ text ++ "'"
  | .unexpectedDirective => "unexpected token"
  | .variableArity => "VAR takes exactly one name"
  | .invalidVariable text => "invalid variable name '" ++ text ++ "'"
  | .operandUnwanted mnemonic => mnemonic ++ " takes no operand"
  | .callUnnamed => "CALL needs a function name"
  | .operandArity mnemonic => mnemonic ++ " takes exactly one operand"
  | .callArity function taken given =>
    "'" ++ function ++ "' takes " ++ toString taken ++ " argument(s), " ++ toString given
      ++ " given"

inductive Cause
  | unknownToken
  | malformed (why : Malformed)
  | duplicateFunction (name : String)
  | duplicateLabel (name : String)
  | unterminatedFunction (name : String)
  | duplicateVariable (name : String)
  | undeclaredVariable (name : String)
  | labelNotFound (name : String)
  | functionNotFound (name : String)
  | invalidLiteral (text : String)
deriving DecidableEq, Repr

def Cause.message : Cause → String
  | .unknownToken => "unknown token"
  | .malformed why => "syntax error: " ++ why.message
  | .duplicateFunction name => "duplicate function '" ++ name ++ "'"
  | .duplicateLabel name => "duplicate goto label '" ++ name ++ "'"
  | .unterminatedFunction name => "function '" ++ name ++ "' is never terminated with END"
  | .duplicateVariable name => "duplicate variable '" ++ name ++ "'"
  | .undeclaredVariable name => "undeclared variable '" ++ name ++ "'"
  | .labelNotFound name => "goto label '" ++ name ++ "' does not exist"
  | .functionNotFound name => "function '" ++ name ++ "' does not exist"
  | .invalidLiteral text => "invalid literal '" ++ text ++ "'"

/-- The stage of assembly that a cause belongs to. -/
inductive Category
  | lexical
  | form
  | scope
  | allocation
  | resolution
deriving DecidableEq, Repr

def Cause.category : Cause → Category
  | .unknownToken => .lexical
  | .malformed _ => .form
  | .duplicateFunction _ | .duplicateLabel _ | .unterminatedFunction _ => .scope
  | .duplicateVariable _ | .undeclaredVariable _ => .allocation
  | .labelNotFound _ | .functionNotFound _ | .invalidLiteral _ => .resolution

structure Fault where
  origin : Origin
  cause : Cause
deriving DecidableEq, Repr

def Fault.message (f : Fault) : String :=
  "line " ++ toString f.origin.line ++ ": " ++ f.cause.message ++ ": " ++ f.origin.text

end Source

end Accumulator
