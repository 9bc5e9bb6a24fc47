import Accumulator.Proofs.Machine.Memory
import Accumulator.Proofs.Program.Sources
import Accumulator.Stepper.Screen

set_option autoImplicit false

/-!
The rows that tell where a program stands. A word of a scope has the row of its line, the row of its
scope and one row for each variable of the scope; no other address has any row.
-/

namespace Accumulator.Stepper

open Source

theorem load_of_place (s : Machine.State) (address : Int) (place : Nat)
    (same : (place : Int) = address + s.frameBase) :
    s.load address =
      match s.memory[place]? with
      | some v => .ok v
      | none => .error (.memoryOutOfBounds place s.pc) := by
  unfold Machine.State.load
  cases found : s.cell address with
  | ok i =>
    have here := Machine.cell_eq_ok s address i found
    have cell : place = i.val := by omega
    rw [cell, Vector.getElem?_eq_getElem i.isLt]
    rfl
  | error f =>
    obtain ⟨rfl, outside⟩ := Machine.cell_eq_error s address f found
    rw [Vector.getElem?_eq_none (by omega), same]

/-- The row of a variable: its name, its address in the frame, and the value of the memory cell that
many behind the frame base, or a question mark if the memory ends before. -/
def variableRow (format : NumberFormat) (s : Machine.State) (name : String) (address : Nat) :
    String :=
  "  " ++ String.ofList (Text.padRight 10 name.toList) ++ " ["
    ++ String.ofList (Text.padLeft 3 ' ' (toString address).toList) ++ "] "
    ++ (s.memory[s.frameBase + address]?).elim "?" format.format

theorem variableLine_eq (format : NumberFormat) (s : Machine.State) (name : String)
    (address : Nat) : variableLine format s name address = variableRow format s name address := by
  unfold variableLine variableRow
  rw [load_of_place s address (s.frameBase + address) (by omega)]
  cases s.memory[s.frameBase + address]? <;> rfl

/-- The rows of a word that stands on a line and in a scope. -/
def contextRows (format : NumberFormat) (s : Machine.State) (origin : Origin) (p : Placement) :
    List String :=
  ("Line " ++ toString origin.line ++ ": " ++ origin.text) :: ("Scope: " ++ p.scope.name) ::
    (p.vars.zipIdx 1).map fun (name, address) => variableRow format s name address

section

variable {program : Loaded} {parsed : Program}

/-- The line and the scope of an address are found together or not at all. -/
theorem contextLines_inside (places : program.assembly.layout.Places parsed)
    (format : NumberFormat) (lower : 1 ≤ program.processor.state.pc)
    (upper : program.processor.state.pc ≤ program.assembly.layout.size)
    (apart : program.processor.state.pc ≠ program.assembly.layout.main.size + 1) :
    ∃ p ∈ program.assembly.layout.placements, ∃ origin,
      p.owns program.processor.state.pc = true ∧
      program.assembly.layout.sourceAt? program.processor.state.pc =
        some (origin, p.scope.name) ∧
      contextLines format program = contextRows format program.processor.state origin p := by
  rcases places.covered program.processor.state.pc lower upper with separator | ⟨p, member, owned⟩
  · exact absurd separator apart
  · have scope := places.scopeAt?_eq_some p _ member owned
    have agree := places.sources_agree program.processor.state.pc
    rw [scope, Option.map_some] at agree
    obtain ⟨⟨origin, name⟩, line, rfl⟩ := Option.map_eq_some_iff.mp agree.symm
    refine ⟨p, member, origin, owned, line, ?_⟩
    unfold contextLines contextRows
    simp only [line, scope, variableLine_eq, List.cons_append]
    rfl

theorem contextLines_outside (places : program.assembly.layout.Places parsed)
    (format : NumberFormat)
    (outside : program.processor.state.pc = 0 ∨
      program.processor.state.pc = program.assembly.layout.main.size + 1 ∨
      program.assembly.layout.size < program.processor.state.pc) :
    contextLines format program = [] := by
  have line := (places.sourceAt?_eq_none_iff _).mpr outside
  have scope := (places.scopeAt?_eq_none_iff _).mpr outside
  unfold contextLines
  simp only [line, scope]

end

end Accumulator.Stepper
