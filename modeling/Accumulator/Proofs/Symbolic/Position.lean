import Accumulator.Proofs.Program.Denotation
import Accumulator.Proofs.Program.Fetch
import Accumulator.Proofs.Symbolic.Machine

set_option autoImplicit false

/-!
Positions against addresses: where a layout puts the scopes of its program, and that encoding a
token and reading it as a line give the same operation, literal and target.
-/

namespace Accumulator

open Source Symbolic

theorem Contiguous.base_at {base : Nat} {ps : List Placement} (contiguous : Contiguous base ps)
    (n : Nat) (p : Placement) (found : ps[n]? = some p) : p.base = endFrom base (ps.take n) := by
  induction ps generalizing base n with
  | nil => cases found
  | cons q rest ih =>
    obtain ⟨first, later⟩ := contiguous
    cases n with
    | zero =>
      cases found
      exact first
    | succ n =>
      rw [List.take_succ_cons, endFrom_cons]
      exact ih later n found

theorem Program.base_succ (program : Program) (n : Nat) :
    program.base (n + 1) =
      (program.functions.take n).foldl (fun address s => address + s.size)
        (program.main.size + 2) := rfl

theorem endFrom_map (base : Nat) (ps : List Placement) :
    (ps.map Placement.scope).foldl (fun address s => address + s.size) base = endFrom base ps := by
  rw [List.foldl_map]
  rfl

section

variable {l : Layout} {program : Program} {words : List Word}

/-- A scope with a number has its placement under the same number, at the base of the scope. -/
theorem Layout.Places.placement (places : l.Places program) (n : Nat) (scope : Scope)
    (found : program.scopes[n]? = some scope) :
    ∃ p, l.placements[n]? = some p ∧ p.scope = scope ∧ program.base n = p.base := by
  cases n with
  | zero =>
    cases found
    exact ⟨l.main, rfl, places.main, places.main_base.symm⟩
  | succ n =>
    change program.functions[n]? = some scope at found
    rw [← places.functions, List.getElem?_map, Option.map_eq_some_iff] at found
    obtain ⟨p, found, rfl⟩ := found
    refine ⟨p, found, rfl, ?_⟩
    rw [program.base_succ, places.contiguous.base_at n p found, ← places.functions,
      ← List.map_take, endFrom_map, ← places.main]
    rfl

/-- The function that a call names is the one that its address belongs to. -/
theorem Layout.Places.callee (places : l.Places program) (function : String) (q : Placement)
    (found : l.function? function = some q) :
    ∃ f, program.functions.findIdx? (·.name == function) = some f ∧
      program.address ⟨f + 1, 0⟩ = q.base := by
  obtain ⟨named, f, inside, rfl, first⟩ := List.find?_eq_some_iff_getElem.mp found
  have index : l.functions[f]? = some l.functions[f] := List.getElem?_eq_getElem inside
  refine ⟨f, ?_, ?_⟩
  · rw [← places.functions, List.findIdx?_map, List.findIdx?_eq_some_iff_getElem]
    exact ⟨inside, named, fun j before => by simpa using first j before⟩
  · have scope : program.scopes[f + 1]? = some l.functions[f].scope := by
      change program.functions[f]? = _
      rw [← places.functions, List.getElem?_map, index]
      rfl
    obtain ⟨p, placed, _, base⟩ := places.placement (f + 1) _ scope
    change l.functions[f]? = some p at placed
    rw [index] at placed
    cases placed
    exact base

theorem Scope.Declares.declared_eq {s : Scope} {vars : List String} (declares : s.Declares vars) :
    s.declared = vars := by
  have names := declares.names
  unfold Scope.declared
  clear declares
  generalize s.tokens.filter Token.isDeclaration = declarations at names
  induction names with
  | nil => rfl
  | cons first _ ih => rw [List.flatMap_cons, first.1, ih, List.singleton_append]

/-- What an operand was resolved to is what it means. -/
theorem Layout.Assembles.meaning (assembles : l.Assembles program words) (n : Nat) (p : Placement)
    (placed : l.placements[n]? = some p) (base : program.base n = p.base) (operand : String)
    (value : Nat) (resolved : p.resolve operand = .ok value) :
    program.meaning? n p.scope operand = some value := by
  have declared := (assembles.declares p (List.mem_of_getElem? placed)).declared_eq
  unfold Program.meaning?
  rw [declared, base]
  rcases p.resolve_cases operand value resolved with
    ⟨radix, digits, shape, number, _⟩ | ⟨shape, rank, ranked, rfl⟩ |
      ⟨shape, ranked, offset, label, rfl⟩
  · rw [shape]
    exact number
  · rw [shape, ranked]
  · rw [shape, ranked, label]
    rfl

/-- What an operand was resolved to fits into a literal, unless it is a label behind the last word and
the words of the program have all addresses that fit. -/
theorem Layout.Assembles.resolve_whole (assembles : l.Assembles program words)
    (bounded : l.size < literalBound) (p : Placement) (member : p ∈ l.placements)
    (operand : String) (value : Nat) (resolved : p.resolve operand = .ok value) :
    value < literalBound ∨ value = l.size + 1 ∧ value = literalBound ∧
      ∃ offset, p.scope.label? operand = some offset ∧ value = p.base + offset := by
  have bounds := assembles.places.bounds p member
  have declares := assembles.declares p member
  cases (p.resolve_iff declares operand value).mp resolved with
  | number _ shaped written fits => exact .inl fits
  | declaration rank name declared =>
    obtain ⟨t, found, _⟩ := declared
    have inside : rank < p.size := (List.getElem?_eq_some_iff.mp found).1
    exact .inl (by omega)
  | label offset name undeclared placed =>
    have inside : offset ≤ p.size := (declares.labels operand offset placed).2
    by_cases fits : p.base + offset < literalBound
    · exact .inl fits
    · exact .inr ⟨by omega, by omega, offset, placed, rfl⟩

/-- The positions of a program have the addresses of its words. -/
theorem Layout.Places.address_le (places : l.Places program) (p : Position)
    (inside : program.Inside p) : program.address p ≤ l.size := by
  rcases inside with ⟨scope, found, before⟩ | rfl
  · obtain ⟨q, placed, rfl, base⟩ := places.placement p.scope scope found
    have bounds := places.bounds q (List.mem_of_getElem? placed)
    change program.base p.scope + p.index ≤ l.size
    change p.index < q.size at before
    omega
  · have last := l.main_size_lt
    change 1 + program.main.size ≤ l.size
    rw [← places.main]
    change 1 + l.main.size ≤ l.size
    omega

/-- A line does what the word of its operation with a number does. -/
structure Symbolic.Line.Encodes (line : Line) (program : Program) (n : Nat) : Prop where
  literal : line.operation ≠ .call → line.operation ≠ .goto → line.literal = BitVec.ofNat 24 n
  target : line.operation = .call ∨ line.operation = .goto →
    ∃ target, line.target = some target ∧ program.address target = n

theorem Layout.Assembles.lineOf (assembles : l.Assembles program words) (n : Nat) (p : Placement)
    (placed : l.placements[n]? = some p) (base : program.base n = p.base) (t : Token)
    (instruction : Instruction) (value : Nat)
    (named : Instruction.find? t.mnemonic = some instruction)
    (refers : l.Refers p t instruction.operation value) :
    ∃ line, program.lineOf? n p.scope t = some line ∧ line.operation = instruction.operation ∧
      line.Encodes program value := by
  unfold Program.lineOf?
  rw [named, Option.bind_some]
  generalize instruction.operation = operation at refers ⊢
  cases refers with
  | nothing _ free bare =>
    rw [bare]
    refine ⟨⟨operation, 0, none⟩, ?_, rfl, fun _ _ => rfl, ?_⟩
    · cases operation <;> rfl
    · rintro (rfl | rfl) <;> cases free
  | callee function given q args found arity =>
    obtain ⟨f, callee, address⟩ := assembles.places.callee function q found
    rw [args]
    refine ⟨⟨.call, 0, some ⟨f + 1, 0⟩⟩, ?_, rfl, ?_, ?_⟩
    · dsimp only
      rw [callee]
      rfl
    · exact fun notCall _ => absurd rfl notCall
    · exact fun _ => ⟨_, rfl, address⟩
  | label name offset args found =>
    rw [args]
    refine ⟨⟨.goto, 0, some ⟨n, offset⟩⟩, ?_, rfl, ?_, ?_⟩
    · dsimp only
      rw [found]
      rfl
    · exact fun _ notGoto => absurd rfl notGoto
    · exact fun _ => ⟨_, rfl, congrArg (· + offset) base⟩
  | operand _ taken notCall notGoto text _ args resolved =>
    have meaning := assembles.meaning n p placed base text value resolved
    rw [args]
    refine ⟨⟨operation, BitVec.ofNat 24 value, none⟩, ?_, rfl, fun _ _ => rfl, ?_⟩
    · cases operation <;> first | contradiction | (dsimp only; rw [meaning]; rfl)
    · rintro (isCall | isGoto)
      · exact absurd isCall notCall
      · exact absurd isGoto notGoto

/-- The literal of a line is all that its operand means. Only a label behind the last word has an address
that is cut off, and only if the words of a program of this size have all addresses before that. -/
def Program.OperandsFit (program : Program) (size : Nat) : Prop :=
  ∀ n scope, program.scopes[n]? = some scope → ∀ t ∈ scope.tokens, ∀ i operand,
    Instruction.find? t.mnemonic = some i → i.operation ≠ .call → i.operation ≠ .goto →
    t.args = [operand] →
    ∃ value line, program.meaning? n scope operand = some value ∧
      program.lineOf? n scope t = some line ∧ line.operation = i.operation ∧
      line.literal = BitVec.ofNat 24 value ∧
      (line.literal.toNat = value ∨ value = size + 1 ∧ value = literalBound ∧
        ∃ offset, scope.label? operand = some offset ∧ value = program.base n + offset)

theorem Layout.Assembles.operands_fit (assembles : l.Assembles program words)
    (bounded : l.size < literalBound) : program.OperandsFit l.size := by
  intro n scope found t member i operand named notCall notGoto args
  obtain ⟨p, placed, rfl, base⟩ := assembles.places.placement n scope found
  have inside := List.mem_of_getElem? placed
  obtain ⟨index, token⟩ := List.mem_iff_getElem?.mp member
  obtain ⟨instruction, value, also, _, refers⟩ := assembles.fetch_token p inside index t token
  obtain rfl : i = instruction := Option.some.inj (named.symm.trans also)
  obtain ⟨line, read, same, encodes⟩ := assembles.lineOf n p placed base t i value named refers
  have literal := encodes.literal (same ▸ notCall) (same ▸ notGoto)
  generalize i.operation = operation at refers notCall notGoto same
  cases refers with
  | nothing _ _ bare =>
    rw [args] at bare
    cases bare
  | callee => exact absurd rfl notCall
  | label => exact absurd rfl notGoto
  | operand _ _ _ _ text _ given resolved =>
    rw [args] at given
    cases given
    have meaning := assembles.meaning n p placed base operand value resolved
    refine ⟨value, line, meaning, read, same, literal, ?_⟩
    rcases assembles.resolve_whole bounded p inside operand value resolved with fits | behind
    · rw [literal]
      exact .inl (literal_exact fits)
    · rw [base]
      exact .inr behind

end

end Accumulator
