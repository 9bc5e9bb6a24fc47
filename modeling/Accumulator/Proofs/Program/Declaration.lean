import Accumulator.Program.Layout
import Accumulator.Proofs.Checked
import Mathlib.Data.List.Nodup

set_option autoImplicit false

/-!
The shape of a scope whose variables were accepted: its declarations come first, one for each
variable in the order of their addresses, and its labels stand behind them.
-/

namespace Accumulator

open Source

/-- A line in the body of a scope: an instruction, or a label, which has no arguments. -/
def Source.Token.IsLine (t : Token) : Prop :=
  t.kind = .instruction ∨ t.kind = .label ∧ t.args = []

/-- A scope that comes from the lines of a body. -/
def Scope.Formed (s : Scope) : Prop :=
  ∃ body : List Token, (∀ t ∈ body, t.IsLine) ∧
    s = Scope.ofBody s.name s.header s.params body s.terminator

theorem declareVariable_eq_ok {known vars : List String} {t : Token} :
    declareVariable known t = .ok vars ↔
      ∃ name, t.args = [name] ∧ Text.isIdentifier name = true ∧ name ∉ known ∧
        vars = known ++ [name] := by
  unfold declareVariable
  split
  · rename_i name args
    rw [args]
    by_cases identifier : Text.isIdentifier name = true
    · by_cases fresh : name ∈ known
      · simp [identifier, fresh]
      · constructor
        · intro accepted
          simp only [identifier, fresh, Bool.not_true, Bool.false_eq_true, ↓reduceIte,
            List.contains_iff_mem, Except.ok.injEq] at accepted
          exact ⟨name, rfl, identifier, fresh, accepted.symm⟩
        · rintro ⟨other, same, _, _, rfl⟩
          cases same
          simp [identifier, fresh]
    · simp [identifier]
  · rename_i other
    constructor
    · intro failed
      cases failed
    · rintro ⟨name, args, _⟩
      exact absurd args (other name)

theorem foldlM_declareVariable (ts : List Token) (known vars : List String)
    (declared : ts.foldlM declareVariable known = .ok vars) :
    ∃ names, vars = known ++ names ∧
      List.Forall₂ (fun t name => t.args = [name] ∧ Text.isIdentifier name = true) ts names ∧
      (known.Nodup → vars.Nodup) := by
  induction ts generalizing known with
  | nil =>
    rw [List.foldlM_nil, pure_eq_ok] at declared
    subst declared
    exact ⟨[], (List.append_nil known).symm, .nil, id⟩
  | cons t ts ih =>
    rw [List.foldlM_cons, bind_eq_ok] at declared
    obtain ⟨next, accepted, declared⟩ := declared
    obtain ⟨name, args, identifier, fresh, rfl⟩ := declareVariable_eq_ok.mp accepted
    obtain ⟨names, rfl, related, nodup⟩ := ih (known ++ [name]) declared
    refine ⟨name :: names, by simp, .cons ⟨args, identifier⟩ related, ?_⟩
    intro distinct
    apply nodup
    rw [List.nodup_append]
    refine ⟨distinct, List.nodup_singleton name, ?_⟩
    intro a known_a b is_name
    rw [List.mem_singleton] at is_name
    rintro rfl
    exact fresh (is_name ▸ known_a)

/-- The mnemonics of the instructions that pass the arguments of a call. -/
def passingMnemonics : List String := ["MOVFW", "MOVLW", "MOVWF"]

theorem mem_passArgument {call t : Token} {argument : String} {cell : Nat}
    (member : t ∈ passArgument call argument cell) :
    ∃ mnemonic ∈ passingMnemonics, ∃ operand, t = call.derive mnemonic operand := by
  unfold passArgument at member
  rcases List.mem_cons.mp member with load | store
  · refine ⟨_, ?_, argument, load⟩
    unfold passingMnemonics
    split <;> simp
  · rw [List.mem_singleton] at store
    exact ⟨"MOVWF", by simp [passingMnemonics], toString cell, store⟩

/-- Only a line that is no label emits anything: itself, and the instructions that pass its
arguments. -/
theorem mem_expandBody {frame : Nat} {line t : Token} (member : t ∈ expandBody frame line) :
    line.isLabel = false ∧
      (t = line ∨ ∃ mnemonic ∈ passingMnemonics, ∃ operand, t = line.derive mnemonic operand) := by
  unfold expandBody at member
  split at member
  · cases member
  · rename_i unlabelled
    refine ⟨Bool.eq_false_iff.mpr unlabelled, ?_⟩
    split at member
    · rcases List.mem_append.mp member with preamble | call
      · obtain ⟨_, _, passed⟩ := List.mem_flatMap.mp preamble
        exact .inr (mem_passArgument passed)
      · exact .inl (List.mem_singleton.mp call)
    · exact .inl (List.mem_singleton.mp member)

theorem expandBody_not_declaration (frame : Nat) (line t : Token)
    (instruction : line.isDeclaration = false) (member : t ∈ expandBody frame line) :
    t.isDeclaration = false := by
  have passing : ∀ mnemonic ∈ passingMnemonics, (mnemonic == "VAR") = false := by decide
  obtain ⟨_, rfl | ⟨mnemonic, passes, operand, rfl⟩⟩ := mem_expandBody member
  · exact instruction
  · exact passing mnemonic passes

theorem labelOffsets_bounds (frame offset : Nat) (code : List Token) (name : String) (place : Nat)
    (member : (name, place) ∈ labelOffsets frame offset code) :
    offset ≤ place ∧ place ≤ offset + (code.flatMap (expandBody frame)).length := by
  induction code generalizing offset with
  | nil => cases member
  | cons t code ih =>
    rw [List.flatMap_cons, List.length_append]
    unfold labelOffsets at member
    split at member
    · rcases List.mem_cons.mp member with here | later
      · cases here
        omega
      · have bounds := ih offset later
        omega
    · have bounds := ih _ member
      omega

/-- Without a label among the declarations, all labels stand between their end and that of the
code. -/
theorem ofBody_label_bounds (declarations code : List Token)
    (unlabelled : ∀ t ∈ declarations, t.isLabel = false) (name : String) (place : Nat)
    (member : (name, place) ∈ (declarations.filter Token.isLabel).map (fun t => (t.mnemonic, 0)) ++
      labelOffsets declarations.length declarations.length code) :
    declarations.length ≤ place ∧
      place ≤ declarations.length + (code.flatMap (expandBody declarations.length)).length := by
  rcases List.mem_append.mp member with hoisted | placed
  · obtain ⟨t, kept, _⟩ := List.mem_map.mp hoisted
    obtain ⟨declared, isLabel⟩ := List.mem_filter.mp kept
    rw [unlabelled t declared] at isLabel
    cases isLabel
  · exact labelOffsets_bounds _ _ _ name place placed

/-- A line that declares a variable is not a label, since it has an argument. -/
theorem Source.Token.IsLine.not_label {t : Token} (line : t.IsLine) (name : String)
    (args : t.args = [name]) : t.isLabel = false := by
  unfold Token.isLabel
  rcases line with instruction | ⟨_, bare⟩
  · rw [instruction]
    rfl
  · rw [args] at bare
    cases bare

/-- What is known of a scope whose variables are `vars`. -/
structure Scope.Declares (s : Scope) (vars : List String) : Prop where
  nodup : vars.Nodup
  /-- The declarations are the first tokens, and there are no others. -/
  first : ∀ i t, s.tokens[i]? = some t → (t.isDeclaration = true ↔ i < vars.length)
  names : List.Forall₂ (fun t name => t.args = [name] ∧ Text.isIdentifier name = true)
    (s.tokens.filter Token.isDeclaration) vars
  /-- The declaration with an index declares the variable with this index. -/
  named : ∀ i t, i < vars.length → s.tokens[i]? = some t →
    ∃ name, t.args = [name] ∧ Text.isIdentifier name = true ∧ vars[i]? = some name
  fits : vars.length ≤ s.size
  /-- No label stands before a declaration, and none behind the end of the scope. -/
  labels : ∀ name offset, s.label? name = some offset → vars.length ≤ offset ∧ offset ≤ s.size

/-- The variables are the names that the declarations carry. -/
theorem Scope.Declares.vars_eq {s : Scope} {vars : List String} (declares : s.Declares vars) :
    vars = (s.tokens.filter Token.isDeclaration).flatMap Token.args := by
  have names := declares.names
  clear declares
  generalize s.tokens.filter Token.isDeclaration = declarations at names ⊢
  induction names with
  | nil => rfl
  | cons here _ ih => rw [List.flatMap_cons, here.1, ← ih, List.singleton_append]

theorem Scope.Declares.identifier {s : Scope} {vars : List String} (declares : s.Declares vars) :
    ∀ name ∈ vars, Text.isIdentifier name = true := by
  intro name member
  obtain ⟨_, _, _, identifier⟩ := forall₂_exists_of_mem declares.names.flip name member
  exact identifier

theorem isDeclaration_append_iff (declarations code : List Token)
    (all : ∀ t ∈ declarations, t.isDeclaration = true)
    (none : ∀ t ∈ code, t.isDeclaration = false) (i : Nat) (t : Token)
    (found : (declarations ++ code)[i]? = some t) :
    t.isDeclaration = true ↔ i < declarations.length := by
  by_cases inside : i < declarations.length
  · rw [List.getElem?_append_left inside] at found
    exact ⟨fun _ => inside, fun _ => all t (List.mem_of_getElem? found)⟩
  · rw [List.getElem?_append_right (by omega)] at found
    have absent := none t (List.mem_of_getElem? found)
    constructor
    · intro present
      rw [absent] at present
      cases present
    · intro within
      exact absurd within inside

theorem lookup_mem (labels : List (String × Nat)) (name : String) (place : Nat)
    (found : labels.lookup name = some place) : (name, place) ∈ labels := by
  induction labels with
  | nil => cases found
  | cons label labels ih =>
    obtain ⟨key, value⟩ := label
    rw [List.lookup_cons] at found
    split at found
    · rename_i same
      rw [beq_iff_eq] at same
      cases found
      exact same ▸ List.mem_cons_self
    · exact List.mem_cons_of_mem _ (ih found)

theorem Scope.Formed.declares {s : Scope} {vars : List String} (formed : s.Formed)
    (declared : s.vars = .ok vars) : s.Declares vars := by
  obtain ⟨body, lines, shape⟩ := formed
  -- The two parts of the scope: its declarations, and what the other lines emit.
  let declarations := body.filter Token.isDeclaration
  let code := (body.filter fun t => !t.isDeclaration).flatMap (expandBody declarations.length)
  have tokens : s.tokens = declarations ++ code := by rw [shape]; rfl
  have all : ∀ t ∈ declarations, t.isDeclaration = true := fun t member =>
    (List.mem_filter.mp member).2
  have none : ∀ t ∈ code, t.isDeclaration = false := by
    intro t member
    obtain ⟨line, kept, emitted⟩ := List.mem_flatMap.mp member
    have instruction : line.isDeclaration = false := by
      simpa using (List.mem_filter.mp kept).2
    exact expandBody_not_declaration _ line t instruction emitted
  have filtered : s.tokens.filter Token.isDeclaration = declarations := by
    rw [tokens, List.filter_append, List.filter_eq_self.mpr all,
      List.filter_eq_nil_iff.mpr (fun t member => by simp [none t member]), List.append_nil]
  unfold Scope.vars at declared
  obtain ⟨names, rfl, related, nodup⟩ := foldlM_declareVariable _ [] vars declared
  have count : declarations.length = vars.length := by
    rw [← filtered]
    exact related.length_eq
  have size : s.size = vars.length + code.length := by
    unfold Scope.size
    rw [tokens, List.length_append, count]
  refine ⟨nodup List.nodup_nil, ?_, related, ?_, by omega, ?_⟩
  · intro i t found
    rw [tokens] at found
    rw [← count]
    exact isDeclaration_append_iff declarations code all none i t found
  · intro i t below found
    rw [tokens, List.getElem?_append_left (count ▸ below), ← filtered] at found
    obtain ⟨name, placed, args, identifier⟩ := forall₂_getElem? related i t found
    exact ⟨name, args, identifier, placed⟩
  · intro name offset found
    have member := lookup_mem s.labels name offset found
    have labels : s.labels = (declarations.filter Token.isLabel).map (fun t => (t.mnemonic, 0)) ++
        labelOffsets declarations.length declarations.length
          (body.filter fun t => !t.isDeclaration) := by
      rw [shape]
      rfl
    rw [labels] at member
    have unlabelled : ∀ t ∈ declarations, t.isLabel = false := by
      intro t declared
      obtain ⟨i, place⟩ := List.mem_iff_getElem?.mp declared
      obtain ⟨name, _, args, _⟩ := forall₂_getElem? (filtered ▸ related) i t place
      exact (lines t (List.mem_filter.mp declared).1).not_label name args
    have bounds := ofBody_label_bounds declarations _ unlabelled name offset member
    change declarations.length ≤ offset ∧ offset ≤ declarations.length + code.length at bounds
    omega

end Accumulator
