set_option autoImplicit false

/-!
Digits: reading a run of digits in a base, and writing words in a fixed number of digits.
-/

namespace Accumulator.Text

/-- The value of a digit of bases up to sixteen, letters in either case. -/
def digitValue (c : Char) : Option Nat :=
  if '0' ≤ c ∧ c ≤ '9' then some (c.toNat - '0'.toNat)
  else if 'a' ≤ c ∧ c ≤ 'f' then some (c.toNat - 'a'.toNat + 10)
  else if 'A' ≤ c ∧ c ≤ 'F' then some (c.toNat - 'A'.toNat + 10)
  else none

/-- Whether a character is a digit of the base. -/
def isDigitOf (base : Nat) (c : Char) : Bool :=
  (digitValue c).any (· < base)

/-- The number that a run of digits denotes, the first digit the most significant. -/
def ofDigits (base : Nat) (digits : List Char) : Nat :=
  digits.foldl (fun n c => n * base + (digitValue c).getD 0) 0

/-- The number written by one or more digits of the base, and by nothing else. -/
def readDigits (base : Nat) (digits : List Char) : Option Nat :=
  if digits ≠ [] ∧ digits.all (isDigitOf base) then some (ofDigits base digits) else none

/-- The bits of a word, the most significant first. -/
def bits {width : Nat} (word : BitVec width) : List Char :=
  (List.range width).map fun i => if word.getMsbD i then '1' else '0'

/-- A text filled on the left with `fill` up to a width. -/
def padLeft (width : Nat) (fill : Char) (text : List Char) : List Char :=
  List.replicate (width - text.length) fill ++ text

/-- A text filled on the right with blanks up to a width. -/
def padRight (width : Nat) (text : List Char) : List Char :=
  text ++ List.replicate (width - text.length) ' '

/-- A number in base sixteen with at least `width` digits. -/
def hexadecimal (width n : Nat) : List Char :=
  padLeft width '0' (Nat.toDigits 16 n)

end Accumulator.Text
