import Accumulator.Text.Line
import Accumulator.Word

set_option autoImplicit false

/-!
Binary listings: one word of 32 binary digits a line. Reading passes over blank lines and over the
blanks around a word.
-/

namespace Accumulator.Listing

/-- A line that is neither blank nor a word. -/
structure Fault where
  line : Nat
  text : String
deriving DecidableEq, Repr

def Fault.message (f : Fault) : String :=
  "line " ++ toString f.line ++ ": expected 32 binary digits, found '" ++ f.text ++ "'"

/-- The word on the line with a number. -/
def readWord (number : Nat) (line : List Char) : Except Fault Word :=
  match Word.ofDigits? (Text.trim line) with
  | some w => .ok w
  | none => .error ⟨number, String.ofList (Text.trim line)⟩

/-- The words on lines that are numbered from `first` on. -/
def readLines (first : Nat) : List (List Char) → Except Fault (List Word)
  | [] => .ok []
  | line :: rest =>
    if (Text.trim line).isEmpty then readLines (first + 1) rest
    else do
      let word ← readWord first line
      let words ← readLines (first + 1) rest
      return word :: words

def read (text : List Char) : Except Fault (List Word) :=
  readLines 1 (Text.lines text)

/-- The words one a line, without a line feed at the end. -/
def write (words : List Word) : List Char :=
  ['\n'].intercalate (words.map Word.digits)

end Accumulator.Listing
