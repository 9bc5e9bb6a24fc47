import Accumulator.Proofs.Program.Code
import Accumulator.Proofs.Text.Character

set_option autoImplicit false

/-!
Operands that name variables: a name never has the shape of a number, and the literal of a
declaration is the address of the variable that it declares.
-/

namespace Accumulator

open Source

theorem numeral?_of_identifier (name : String) (identifier : Text.isIdentifier name = true) :
    numeral? name.toList = none := by
  unfold Text.isIdentifier at identifier
  split at identifier
  · cases identifier
  · rename_i c cs characters
    rw [Bool.and_eq_true] at identifier
    have behind := Text.nine_lt_of_letter c identifier.1
    have digit : c.isDigit = false := by
      rw [Bool.eq_false_iff, ne_eq, Char.isDigit_iff_toNat]
      omega
    have minus : c ≠ '-' := by
      rintro rfl
      exact absurd behind (by decide)
    have zero : c ≠ '0' := by
      rintro rfl
      exact absurd behind (by decide)
    rw [characters]
    simp [numeral?, digit, minus, zero]

theorem Placement.encode_operand (p : Placement) {t : Token} {i : Instruction} {operand : String}
    {n : Nat} (known : Instruction.find? t.mnemonic = some i)
    (taken : i.operation.takesOperand = true) (notCall : i.operation ≠ .call)
    (notGoto : i.operation ≠ .goto) (args : t.args = [operand])
    (resolved : p.resolve operand = .ok n) : p.encode t = .ok (i.code, .value n) := by
  unfold Placement.encode
  rw [known, args]
  dsimp only
  rw [taken, if_neg notCall, if_neg notGoto, resolved]
  rfl

theorem Placement.encode_callee (p : Placement) {t : Token} {function : String}
    {given : List String} (isCall : t.mnemonic = "CALL") (args : t.args = function :: given) :
    p.encode t = .ok (0x08, .callee t function given.length) := by
  have known : Instruction.find? "CALL" = some ⟨"CALL", 0x08, .call⟩ := by decide +kernel
  unfold Placement.encode
  rw [isCall, known, args]
  rfl

theorem idxOf?_of_nodup {α : Type} [BEq α] [LawfulBEq α] (xs : List α) (i : Nat) (x : α)
    (distinct : xs.Nodup) (found : xs[i]? = some x) : xs.idxOf? x = some i := by
  obtain ⟨inside, rfl⟩ := List.getElem?_eq_some_iff.mp found
  rw [List.idxOf?_eq_some_iff]
  refine ⟨inside, rfl, fun j before same => ?_⟩
  exact absurd ((distinct.getElem_inj_iff).mp same) (Nat.ne_of_lt before)

theorem Placement.frameAddress?_of_nodup {p : Placement} {i : Nat} {name : String}
    (distinct : p.vars.Nodup) (found : p.vars[i]? = some name) :
    p.frameAddress? name = some (i + 1) := by
  unfold Placement.frameAddress?
  rw [idxOf?_of_nodup p.vars i name distinct found]
  rfl

/-- The three things that an operand can name: a number, a variable or a label. -/
theorem Placement.resolve_cases (p : Placement) (operand : String) (value : Nat)
    (resolved : p.resolve operand = .ok value) :
    (∃ radix digits, numeral? operand.toList = some (radix, digits) ∧
      signedValue? radix digits = some value ∧ value < literalBound) ∨
    (numeral? operand.toList = none ∧ ∃ rank, p.vars.idxOf? operand = some rank ∧
      value = rank + 1) ∨
    (numeral? operand.toList = none ∧ p.vars.idxOf? operand = none ∧
      ∃ offset, p.scope.label? operand = some offset ∧ value = p.base + offset) := by
  unfold Placement.resolve Placement.frameAddress? Placement.labelAddress? at resolved
  split at resolved
  · rename_i radix digits shape
    split at resolved
    · rename_i n literal
      cases resolved
      obtain ⟨number, below⟩ := Option.filter_eq_some_iff.mp literal
      exact Or.inl ⟨radix, digits, shape, number, of_decide_eq_true below⟩
    · cases resolved
  · rename_i shape
    cases ranked : p.vars.idxOf? operand with
    | some rank =>
      rw [ranked] at resolved
      cases resolved
      exact Or.inr (Or.inl ⟨shape, rank, rfl, rfl⟩)
    | none =>
      rw [ranked] at resolved
      cases labelled : p.scope.label? operand with
      | some offset =>
        rw [labelled] at resolved
        cases resolved
        exact Or.inr (Or.inr ⟨shape, rfl, offset, rfl, rfl⟩)
      | none =>
        rw [labelled] at resolved
        cases resolved

section

variable {l : Layout} {program : Program} {words : List Word}

theorem Layout.Assembles.resolve_variable (assembles : l.Assembles program words) (p : Placement)
    (member : p ∈ l.placements) (i : Nat) (name : String) (found : p.vars[i]? = some name)
    (identifier : Text.isIdentifier name = true) : p.resolve name = .ok (i + 1) := by
  have address := Placement.frameAddress?_of_nodup (assembles.declares p member).nodup found
  unfold Placement.resolve
  rw [numeral?_of_identifier name identifier]
  simp only [address]

/-- The first words of a scope are its declarations, and no others are. -/
theorem Layout.Assembles.var_iff (assembles : l.Assembles program words) (p : Placement)
    (member : p ∈ l.placements) (i : Nat) (t : Token) (instruction : Instruction)
    (found : p.scope.tokens[i]? = some t)
    (named : Instruction.find? t.mnemonic = some instruction) :
    instruction.operation = .var ↔ i < p.vars.length := by
  obtain ⟨listed, mnemonic⟩ := Instruction.mem_of_find? named
  rw [Instruction.var_iff instruction listed, mnemonic,
    ← (assembles.declares p member).first i t found]
  unfold Token.isDeclaration
  rw [beq_iff_eq]

/-- The literal of a declaration is the number of the declarations up to this one. -/
theorem Layout.Assembles.declared_address (assembles : l.Assembles program words) (p : Placement)
    (member : p ∈ l.placements) (i : Nat) (t : Token) (n : Nat)
    (found : p.scope.tokens[i]? = some t) (below : i < p.vars.length)
    (refers : l.Refers p t .var n) : n = i + 1 := by
  obtain ⟨name, args, identifier, placed⟩ := (assembles.declares p member).named i t below found
  cases refers with
  | nothing _ free _ => cases free
  | operand _ _ _ _ text n given resolved =>
    rw [args] at given
    cases given
    rw [assembles.resolve_variable p member i name placed identifier] at resolved
    exact (Except.ok.inj resolved).symm

end

end Accumulator
