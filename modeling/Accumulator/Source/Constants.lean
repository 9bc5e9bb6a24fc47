import Accumulator.Text.Character

set_option autoImplicit false

/-!
Named constants and their substitution into arguments.
-/

namespace Accumulator.Source

/-- Whether a word that ends here is complete: no word character follows. -/
def endsWord : List Char → Bool
  | [] => true
  | c :: _ => !Text.isWordChar c

/-- Replaces the bounded occurrences of a word in a text, which are those that no word character
touches. Occurrences are found from left to right and do not overlap. `bounded` says that no word
character comes before the text, and `skip` how many of its characters are already dealt with. -/
def replaceFrom (word value : List Char) : Bool → Nat → List Char → List Char
  | _, _, [] => []
  | _, skip + 1, c :: cs => replaceFrom word value (!Text.isWordChar c) skip cs
  | bounded, 0, c :: cs =>
    if word.isPrefixOf (c :: cs) then
      (if bounded && endsWord ((c :: cs).drop word.length) then value else word)
        ++ replaceFrom word value (!Text.isWordChar c) (word.length - 1) cs
    else c :: replaceFrom word value (!Text.isWordChar c) 0 cs

/-- Puts a value into every gap of a text that no word character touches: what an empty word
stands for. -/
def fillGaps (value : List Char) : Bool → List Char → List Char
  | bounded, [] => if bounded then value else []
  | bounded, c :: cs =>
    (if bounded && !Text.isWordChar c then value else [])
      ++ c :: fillGaps value (!Text.isWordChar c) cs

def replaceWord (word value text : List Char) : List Char :=
  if word.isEmpty then fillGaps value true text else replaceFrom word value true 0 text

/-- Names with their values, in the order in which the names were first defined. -/
structure Constants where
  entries : List (String × String)
deriving DecidableEq, Repr

namespace Constants

def empty : Constants := ⟨[]⟩

def size (c : Constants) : Nat := c.entries.length

def get? (c : Constants) (name : String) : Option String :=
  c.entries.lookup name

/-- The entries with a new value for a name: in its old place, or at the end if there is none. -/
def put (name value : String) : List (String × String) → List (String × String)
  | [] => [(name, value)]
  | entry :: rest => if entry.1 = name then (name, value) :: rest else entry :: put name value rest

def define (c : Constants) (name value : String) : Constants :=
  ⟨put name value c.entries⟩

/-- Replaces one constant inside an argument. -/
def replace (text : List Char) (entry : String × String) : List Char :=
  replaceWord entry.1.toList entry.2.toList text

/-- An argument that is a constant's name stands for its value. In any other argument the constants
are replaced one after the other, in the order of their definitions. -/
def substitute (c : Constants) (argument : String) : String :=
  match c.get? argument with
  | some value => value
  | none => String.ofList (c.entries.foldl replace argument.toList)

end Constants

end Accumulator.Source
