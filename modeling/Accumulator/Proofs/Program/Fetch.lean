import Accumulator.Proofs.Program.Code

set_option autoImplicit false

/-!
What the processor finds at the addresses of an assembled program: the word of a token in the scope
that owns the address, or the halt word behind the main scope.
-/

namespace Accumulator

open Source Machine

theorem fetch?_eq_some_iff (words : List Word) (pc : Nat) (w : Word) :
    Code.fetch? words.toArray pc = some w ↔ pc ≠ 0 ∧ words[pc - 1]? = some w := by
  unfold Code.fetch?
  by_cases zero : pc = 0
  · simp [zero]
  · simp [zero, List.getElem?_toArray]

theorem literal_exact {n : Nat} (fits : n < literalBound) : (BitVec.ofNat 24 n).toNat = n := by
  rw [BitVec.toNat_ofNat]
  exact Nat.mod_eq_of_lt fits

/-- One literal wraps around, and it wraps to zero. -/
theorem literal_of_pos {n : Nat} (fits : n ≤ literalBound)
    (positive : 0 < (BitVec.ofNat 24 n).toNat) : (BitVec.ofNat 24 n).toNat = n := by
  rcases Nat.lt_or_eq_of_le fits with below | rfl
  · exact literal_exact below
  · exact absurd positive (by decide)

section

variable {l : Layout} {program : Program} {words : List Word}

theorem Layout.Assembles.fetch_token (assembles : l.Assembles program words) (p : Placement)
    (member : p ∈ l.placements) (i : Nat) (t : Token) (found : p.scope.tokens[i]? = some t) :
    ∃ instruction n, Instruction.find? t.mnemonic = some instruction ∧
      Code.fetch? words.toArray (p.base + i) = some ⟨instruction.code, BitVec.ofNat 24 n⟩ ∧
      l.Refers p t instruction.operation n := by
  obtain ⟨e, w, encoded, linked, placed⟩ := assembles.word_at p member i t found
  obtain ⟨instruction, n, named, rfl, refers⟩ := l.refers_of_encode p t e w encoded linked
  have first := (assembles.places.bounds p member).1
  refine ⟨instruction, n, named, ?_, refers⟩
  rw [fetch?_eq_some_iff]
  exact ⟨by omega, placed⟩

theorem Layout.Assembles.fetch_separator (assembles : l.Assembles program words) :
    Code.fetch? words.toArray (l.main.size + 1) = some Word.halt := by
  rw [fetch?_eq_some_iff]
  exact ⟨Nat.succ_ne_zero _, assembles.separator⟩

/-- A word of the program is that of a token, or the halt word behind the main scope. -/
theorem Layout.Assembles.fetch_cases (assembles : l.Assembles program words) (pc : Nat) (w : Word)
    (fetched : Code.fetch? words.toArray pc = some w) :
    (pc = l.main.size + 1 ∧ w = Word.halt) ∨
      ∃ p ∈ l.placements, ∃ i t, p.scope.tokens[i]? = some t ∧ pc = p.base + i := by
  have within := (fetch?_eq_some_iff words pc w).mp fetched
  have inside : pc - 1 < words.length := (List.getElem?_eq_some_iff.mp within.2).1
  rw [assembles.length] at inside
  rcases assembles.places.covered pc (by omega) (by omega) with rfl | ⟨p, member, owned⟩
  · rw [assembles.fetch_separator] at fetched
    cases fetched
    exact Or.inl ⟨rfl, rfl⟩
  · rw [owns_iff] at owned
    have index : pc - p.base < p.scope.tokens.length := by
      change pc - p.base < p.size
      omega
    exact Or.inr ⟨p, member, pc - p.base, _, List.getElem?_eq_getElem index, by omega⟩

theorem Layout.Assembles.pending_token (assembles : l.Assembles program words) (p : Placement)
    (member : p ∈ l.placements) (i : Nat) (t : Token) (found : p.scope.tokens[i]? = some t)
    (s : State) (running : s.halted = false) (here : s.pc = p.base + i) :
    ∃ instruction n, Instruction.find? t.mnemonic = some instruction ∧
      s.pending? words.toArray = some (instruction.operation, BitVec.ofNat 24 n) ∧
      l.Refers p t instruction.operation n := by
  obtain ⟨instruction, n, named, fetched, refers⟩ := assembles.fetch_token p member i t found
  refine ⟨instruction, n, named, ?_, refers⟩
  rw [pending_eq_some_iff, here]
  exact ⟨running, _, instruction, fetched,
    instruction.decode?_code (Instruction.mem_of_find? named).1, rfl, rfl⟩

theorem Layout.Assembles.pending_separator (assembles : l.Assembles program words) (s : State)
    (running : s.halted = false) (here : s.pc = l.main.size + 1) :
    s.pending? words.toArray = some (.halt, 0) := by
  rw [pending_eq_some_iff, here]
  exact ⟨running, Word.halt, ⟨"HALT", 0, .halt⟩, assembles.fetch_separator, rfl, rfl, rfl⟩

/-- What a cycle carries out comes from a token, or from the halt word behind the main scope. -/
theorem Layout.Assembles.pending_cases (assembles : l.Assembles program words) (s : State)
    (operation : Operation) (literal : BitVec 24)
    (pending : s.pending? words.toArray = some (operation, literal)) :
    (s.pc = l.main.size + 1 ∧ operation = .halt) ∨
      ∃ p ∈ l.placements, ∃ i t instruction n, p.scope.tokens[i]? = some t ∧
        s.pc = p.base + i ∧ Instruction.find? t.mnemonic = some instruction ∧
        instruction.operation = operation ∧ literal = BitVec.ofNat 24 n ∧
        l.Refers p t operation n := by
  obtain ⟨running, w, _, fetched, _⟩ := (pending_eq_some_iff _ s operation literal).mp pending
  rcases assembles.fetch_cases s.pc w fetched with ⟨here, _⟩ | ⟨p, member, i, t, found, here⟩
  · rw [assembles.pending_separator s running here] at pending
    cases pending
    exact Or.inl ⟨here, rfl⟩
  · obtain ⟨instruction, n, named, carried, refers⟩ :=
      assembles.pending_token p member i t found s running here
    rw [carried] at pending
    cases pending
    exact Or.inr ⟨p, member, i, t, instruction, n, found, here, named, rfl, rfl, refers⟩

theorem Layout.Assembles.pending_owned (assembles : l.Assembles program words) (p : Placement)
    (member : p ∈ l.placements) (s : State) (owned : p.owns s.pc = true) (operation : Operation)
    (literal : BitVec 24) (pending : s.pending? words.toArray = some (operation, literal)) :
    ∃ i t instruction n, p.scope.tokens[i]? = some t ∧ s.pc = p.base + i ∧
      Instruction.find? t.mnemonic = some instruction ∧ instruction.operation = operation ∧
      literal = BitVec.ofNat 24 n ∧ l.Refers p t operation n := by
  rcases assembles.pending_cases s operation literal pending with
    ⟨separator, _⟩ | ⟨q, other, i, t, instruction, n, found, here, rest⟩
  · rw [separator, assembles.places.separator_free p member] at owned
    cases owned
  · have claimed := here ▸ owns_token q i t found
    have same := assembles.places.owner_unique q p s.pc other member claimed owned
    subst same
    exact ⟨i, t, instruction, n, found, here, rest⟩

/-- A call names a function of the program. -/
theorem Layout.Assembles.call_target (assembles : l.Assembles program words) (s : State)
    (literal : BitVec 24) (pending : s.pending? words.toArray = some (.call, literal)) :
    ∃ q ∈ l.functions, literal = BitVec.ofNat 24 q.base := by
  rcases assembles.pending_cases s .call literal pending with
    ⟨_, isHalt⟩ | ⟨p, member, i, t, instruction, n, found, here, named, carried, rfl, refers⟩
  · cases isHalt
  · obtain ⟨function, given, q, _, callee, _, rfl⟩ := refers.of_call
    exact ⟨q, List.mem_of_find?_eq_some callee, rfl⟩

/-- A jump names a label of its own scope. -/
theorem Layout.Assembles.goto_target (assembles : l.Assembles program words) (s : State)
    (literal : BitVec 24) (pending : s.pending? words.toArray = some (.goto, literal)) :
    ∃ p ∈ l.placements, ∃ offset, p.owns s.pc = true ∧ p.vars.length ≤ offset ∧ offset ≤ p.size ∧
      literal = BitVec.ofNat 24 (p.base + offset) := by
  rcases assembles.pending_cases s .goto literal pending with
    ⟨_, isHalt⟩ | ⟨p, member, i, t, instruction, n, found, here, named, carried, rfl, refers⟩
  · cases isHalt
  · obtain ⟨name, offset, _, label, rfl⟩ := refers.of_goto
    have bounds := (assembles.declares p member).labels name offset label
    exact ⟨p, member, offset, here ▸ owns_token p i t found, bounds.1, bounds.2, rfl⟩

end

end Accumulator
