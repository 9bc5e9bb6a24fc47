import Accumulator.Proofs.Program.Nesting
import Mathlib.Data.List.Pairwise

set_option autoImplicit false

/-!
Addresses: the scopes of a program that is laid out follow one another, apart from the halt word
behind the main scope, and so every address of the program has exactly one owner.
-/

namespace Accumulator

open Source

/-- Placements that follow one another without a gap, from an address on. -/
def Contiguous : Nat → List Placement → Prop
  | _, [] => True
  | base, p :: rest => p.base = base ∧ Contiguous (base + p.size) rest

/-- The address behind the last word of placements that begin at an address. -/
def endFrom (base : Nat) (ps : List Placement) : Nat :=
  ps.foldl (fun n p => n + p.size) base

@[simp] theorem endFrom_nil (base : Nat) : endFrom base [] = base := rfl

@[simp] theorem endFrom_cons (base : Nat) (p : Placement) (rest : List Placement) :
    endFrom base (p :: rest) = endFrom (base + p.size) rest := rfl

theorem endFrom_add (base shift : Nat) (ps : List Placement) :
    endFrom (base + shift) ps = endFrom base ps + shift := by
  induction ps generalizing base with
  | nil => rfl
  | cons p rest ih =>
    rw [endFrom_cons, endFrom_cons, Nat.add_right_comm]
    exact ih (base + p.size)

theorem le_endFrom (base : Nat) (ps : List Placement) : base ≤ endFrom base ps := by
  induction ps generalizing base with
  | nil => exact Nat.le_refl base
  | cons p rest ih => exact Nat.le_trans (Nat.le_add_right base p.size) (ih (base + p.size))

theorem owns_iff (p : Placement) (address : Nat) :
    p.owns address = true ↔ p.base ≤ address ∧ address < p.base + p.size := by
  simp [Placement.owns]

theorem owns_token (p : Placement) (i : Nat) (t : Token) (found : p.scope.tokens[i]? = some t) :
    p.owns (p.base + i) = true := by
  have inside : i < p.size := (List.getElem?_eq_some_iff.mp found).1
  rw [owns_iff]
  omega

theorem Contiguous.bounds {base : Nat} {ps : List Placement} (contiguous : Contiguous base ps)
    (p : Placement) (member : p ∈ ps) : base ≤ p.base ∧ p.base + p.size ≤ endFrom base ps := by
  induction ps generalizing base with
  | nil => cases member
  | cons q rest ih =>
    obtain ⟨first, later⟩ := contiguous
    rw [endFrom_cons]
    rcases List.mem_cons.mp member with rfl | below
    · rw [first]
      exact ⟨Nat.le_refl _, le_endFrom _ rest⟩
    · have bounds := ih later below
      omega

/-- Of placements that follow one another, each ends before the later ones begin. -/
theorem Contiguous.pairwise {base : Nat} {ps : List Placement} (contiguous : Contiguous base ps) :
    ps.Pairwise fun p q => p.base + p.size ≤ q.base := by
  induction ps generalizing base with
  | nil => exact .nil
  | cons p rest ih =>
    obtain ⟨rfl, later⟩ := contiguous
    refine .cons ?_ (ih later)
    intro q member
    exact (later.bounds q member).1

/-- One of two placements ends before the other begins. -/
def Placement.Apart (p q : Placement) : Prop :=
  p.base + p.size ≤ q.base ∨ q.base + q.size ≤ p.base

instance : Std.Symm Placement.Apart := ⟨fun _ _ => Or.symm⟩

theorem Contiguous.apart {base : Nat} {ps : List Placement} (contiguous : Contiguous base ps)
    {p q : Placement} (inside : p ∈ ps) (other : q ∈ ps) : p = q ∨ p.Apart q := by
  have pairwise : ps.Pairwise Placement.Apart := contiguous.pairwise.imp Or.inl
  by_cases same : p = q
  · exact .inl same
  · exact .inr (pairwise.forall inside other same)

theorem Contiguous.owner_unique {base : Nat} {ps : List Placement}
    (contiguous : Contiguous base ps) (p q : Placement) (address : Nat) (inside : p ∈ ps)
    (other : q ∈ ps) (owned : p.owns address = true) (claimed : q.owns address = true) :
    p = q := by
  rw [owns_iff] at owned claimed
  rcases contiguous.apart inside other with same | before | behind
  · exact same
  · omega
  · omega

/-- A placement that owns the base of another one begins there too. -/
theorem Contiguous.base_of_owner {base : Nat} {ps : List Placement}
    (contiguous : Contiguous base ps) (p q : Placement) (inside : p ∈ ps) (other : q ∈ ps)
    (owned : p.owns q.base = true) : p.base = q.base := by
  rw [owns_iff] at owned
  rcases contiguous.apart inside other with rfl | before | behind
  · rfl
  · omega
  · omega

theorem Contiguous.covered {base : Nat} {ps : List Placement} (contiguous : Contiguous base ps)
    (address : Nat) (lower : base ≤ address) (upper : address < endFrom base ps) :
    ∃ p ∈ ps, p.owns address = true := by
  induction ps generalizing base with
  | nil =>
    rw [endFrom_nil] at upper
    omega
  | cons p rest ih =>
    obtain ⟨first, later⟩ := contiguous
    by_cases inside : address < base + p.size
    · refine ⟨p, List.mem_cons_self, ?_⟩
      rw [owns_iff]
      omega
    · obtain ⟨q, member, owned⟩ := ih later (by omega) upper
      exact ⟨q, List.mem_cons_of_mem _ member, owned⟩

theorem placeFrom_eq_ok (base : Nat) (scopes : List Scope) (ps : List Placement)
    (placed : placeFrom base scopes = .ok ps) :
    Contiguous base ps ∧ ps.map Placement.scope = scopes ∧
      ∀ p ∈ ps, p.scope.vars = .ok p.vars := by
  induction scopes generalizing base ps with
  | nil =>
    cases placed
    exact ⟨trivial, rfl, by simp⟩
  | cons s rest ih =>
    unfold placeFrom at placed
    simp only [bind_eq_ok, pure_eq_ok] at placed
    obtain ⟨vars, declared, others, placed, rfl⟩ := placed
    obtain ⟨contiguous, scopes, each⟩ := ih (base + s.size) others placed
    refine ⟨⟨rfl, contiguous⟩, by rw [List.map_cons, scopes], ?_⟩
    intro p member
    rcases List.mem_cons.mp member with rfl | below
    · exact declared
    · exact each p below

/-- A layout of a program: its scopes in their order, with their addresses and variables. -/
structure Layout.Places (l : Layout) (program : Program) : Prop where
  main : l.main.scope = program.main
  main_base : l.main.base = 1
  functions : l.functions.map Placement.scope = program.functions
  contiguous : Contiguous (l.main.size + 2) l.functions
  declared : ∀ p ∈ l.placements, p.scope.vars = .ok p.vars

theorem Layout.places_of_ofProgram {program : Program} {l : Layout}
    (placed : Layout.ofProgram program = .ok l) : l.Places program := by
  unfold Layout.ofProgram at placed
  simp only [bind_eq_ok, pure_eq_ok] at placed
  obtain ⟨vars, declared, functions, placed, rfl⟩ := placed
  obtain ⟨contiguous, scopes, each⟩ := placeFrom_eq_ok _ _ functions placed
  refine ⟨rfl, rfl, scopes, contiguous, ?_⟩
  intro p member
  rcases List.mem_cons.mp member with rfl | function
  · exact declared
  · exact each p function

section

variable {l : Layout} {program : Program}

theorem Layout.size_succ (l : Layout) : endFrom (l.main.size + 2) l.functions = l.size + 1 :=
  endFrom_add (l.main.size + 1) 1 l.functions

theorem Layout.Places.function_bounds (places : l.Places program) (p : Placement)
    (member : p ∈ l.functions) :
    l.main.size + 2 ≤ p.base ∧ p.base + p.size ≤ l.size + 1 := by
  rw [← l.size_succ]
  exact places.contiguous.bounds p member

theorem Layout.main_size_lt (l : Layout) : l.main.size < l.size := by
  have last := le_endFrom (l.main.size + 2) l.functions
  rw [l.size_succ] at last
  omega

theorem Layout.Places.bounds (places : l.Places program) (p : Placement)
    (member : p ∈ l.placements) : 1 ≤ p.base ∧ p.base + p.size ≤ l.size + 1 := by
  rcases List.mem_cons.mp member with rfl | function
  · have below := l.main_size_lt
    rw [places.main_base]
    omega
  · have bounds := places.function_bounds p function
    omega

theorem Layout.Places.owner_unique (places : l.Places program) (p q : Placement) (address : Nat)
    (inside : p ∈ l.placements) (other : q ∈ l.placements) (owned : p.owns address = true)
    (claimed : q.owns address = true) : p = q := by
  have main := places.main_base
  rcases List.mem_cons.mp inside with rfl | function
  · rcases List.mem_cons.mp other with rfl | beyond
    · rfl
    · have bounds := places.function_bounds q beyond
      rw [owns_iff] at owned claimed
      omega
  · rcases List.mem_cons.mp other with rfl | beyond
    · have bounds := places.function_bounds p function
      rw [owns_iff] at owned claimed
      omega
    · exact places.contiguous.owner_unique p q address function beyond owned claimed

theorem Layout.Places.base_of_owner (places : l.Places program) (p q : Placement)
    (inside : p ∈ l.placements) (function : q ∈ l.functions) (owned : p.owns q.base = true) :
    p.base = q.base := by
  rcases List.mem_cons.mp inside with rfl | beyond
  · have main := places.main_base
    have bounds := places.function_bounds q function
    rw [owns_iff] at owned
    omega
  · exact places.contiguous.base_of_owner p q beyond function owned

theorem Layout.Places.separator_free (places : l.Places program) (p : Placement)
    (member : p ∈ l.placements) : p.owns (l.main.size + 1) = false := by
  rw [Bool.eq_false_iff, ne_eq, owns_iff]
  rcases List.mem_cons.mp member with rfl | function
  · have main := places.main_base
    omega
  · have bounds := places.function_bounds p function
    omega

theorem Layout.Places.scopeAt?_eq_some (places : l.Places program) (p : Placement) (address : Nat)
    (member : p ∈ l.placements) (owned : p.owns address = true) : l.scopeAt? address = some p := by
  unfold Layout.scopeAt?
  cases found : l.placements.find? fun q => q.owns address with
  | none => exact absurd owned (List.find?_eq_none.mp found p member)
  | some q =>
    have claimed : q.owns address = true :=
      List.find?_some (p := fun r : Placement => r.owns address) found
    rw [places.owner_unique q p address (List.mem_of_find?_eq_some found) member claimed owned]

/-- The words of a program are those of its scopes and the halt word. -/
theorem Layout.Places.covered (places : l.Places program) (address : Nat) (lower : 1 ≤ address)
    (upper : address ≤ l.size) :
    address = l.main.size + 1 ∨ ∃ p ∈ l.placements, p.owns address = true := by
  by_cases before : address ≤ l.main.size
  · refine Or.inr ⟨l.main, List.mem_cons_self, ?_⟩
    rw [owns_iff, places.main_base]
    omega
  · by_cases separator : address = l.main.size + 1
    · exact Or.inl separator
    · have last : address < endFrom (l.main.size + 2) l.functions := by
        rw [l.size_succ]
        omega
      obtain ⟨p, member, owned⟩ := places.contiguous.covered address (by omega) last
      exact Or.inr ⟨p, List.mem_cons_of_mem _ member, owned⟩

end

end Accumulator
