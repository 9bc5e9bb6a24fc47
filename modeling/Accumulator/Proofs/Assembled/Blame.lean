import Accumulator.Proofs.Program.Moved

set_option autoImplicit false

/-!
What is blamed for a fault. Tokens that no line spells out, such as the declarations of parameters,
stand on the lines of others, so every fault has a line of the source, and this line has fields.
-/

namespace Accumulator

open Source

/-- The origin of a fault tells a line of a text: by its number, from one on, and by what is left of
it without comment and outer blanks, which is something. -/
def Source.Fault.Blames (f : Fault) (text : List Char) : Prop :=
  1 ≤ f.origin.line ∧ f.origin.line ≤ (Text.lines text).length ∧
    ∃ line, (Text.lines text)[f.origin.line - 1]? = some line ∧
      f.origin.text = String.ofList (Text.trim (stripComment line)) ∧ f.origin.text ≠ ""

/-- A source is assembled, or a line of it is blamed. -/
theorem fault_blames_line (text : List Char) (f : Fault)
    (rejected : Assembly.ofSource text = .error f) : f.Blames text := by
  rw [Assembly.ofSource_eq_ofContents] at rejected
  obtain ⟨c, member, same⟩ := Assembly.content_of_fault rejected
  obtain ⟨i, line, found, read⟩ := Content.ofLines_mem member
  obtain ⟨origin, fields⟩ := Content.ofLine?_eq_some read
  obtain ⟨below, _⟩ := List.getElem?_eq_some_iff.mp found
  unfold Fault.Blames
  rw [← same, origin]
  dsimp only
  refine ⟨by omega, by omega, line, ?_, rfl, ?_⟩
  · rw [Nat.add_sub_cancel_left]
    exact found
  · -- A line with fields is not trimmed to nothing.
    intro empty
    have trimmed : Text.trim (stripComment line) = [] := String.ofList_eq_empty_iff.mp empty
    rw [← Text.fields_trim, trimmed] at fields
    cases fields

/-- A function with two parameters of one name. -/
def repeatedParameter : List Char := "NOP\n  FN f a a ; twice\nRET\nEND\n".toList

/-- A function that the end of the text leaves open. -/
def openAtEnd : List Char := "\r\n\tFN f a  // open\r\n\tRETFW a\r\n".toList

/-- A call with one argument of a function that takes two. -/
def missingArgument : List Char := "VAR x\n\n  CALL f x // one\nFN f a b\nRET\nEND".toList

/-- Faults that come up late: on the declaration of a parameter, at the end of the text, and where a
call is tied to its function. -/
theorem lateFaults_blame :
    (Assembly.ofSource repeatedParameter = .error ⟨⟨2, "FN f a a"⟩, .duplicateVariable "a"⟩ ∧
      Fault.Blames ⟨⟨2, "FN f a a"⟩, .duplicateVariable "a"⟩ repeatedParameter) ∧
    (Assembly.ofSource openAtEnd = .error ⟨⟨2, "FN f a"⟩, .unterminatedFunction "f"⟩ ∧
      Fault.Blames ⟨⟨2, "FN f a"⟩, .unterminatedFunction "f"⟩ openAtEnd) ∧
    Assembly.ofSource missingArgument =
        .error ⟨⟨3, "CALL f x"⟩, .malformed (.callArity "f" 2 1)⟩ ∧
      Fault.Blames ⟨⟨3, "CALL f x"⟩, .malformed (.callArity "f" 2 1)⟩ missingArgument := by
  have parameter : Assembly.ofSource repeatedParameter =
      .error ⟨⟨2, "FN f a a"⟩, .duplicateVariable "a"⟩ := by
    decide +kernel
  have unclosed : Assembly.ofSource openAtEnd =
      .error ⟨⟨2, "FN f a"⟩, .unterminatedFunction "f"⟩ := by
    decide +kernel
  have call : Assembly.ofSource missingArgument =
      .error ⟨⟨3, "CALL f x"⟩, .malformed (.callArity "f" 2 1)⟩ := by
    decide +kernel
  exact ⟨⟨parameter, fault_blames_line _ _ parameter⟩, ⟨unclosed, fault_blames_line _ _ unclosed⟩,
    call, fault_blames_line _ _ call⟩

end Accumulator
