import Accumulator.Proofs.Program.Placement

set_option autoImplicit false

/-!
The table from addresses to sources is filled by counting words, and the owner of an address is found
by the bounds of the scopes. Both know of the same addresses, and name the same scope for each.
-/

namespace Accumulator

open Source

section Counting

variable {α : Type}

/-- A list with gaps as a table, whose entries are counted from `first` on. -/
def counted (first : Nat) (entries : List (Option α)) : List (Nat × α) :=
  (entries.zipIdx first).filterMap fun (entry, i) => entry.map (i, ·)

theorem counted_cons (first : Nat) (entry : Option α) (rest : List (Option α)) :
    counted first (entry :: rest) = (entry.map (first, ·)).toList ++ counted (first + 1) rest := by
  unfold counted
  rw [List.zipIdx_cons, List.filterMap_cons]
  cases entry <;> rfl

theorem lookup_counted_below (entries : List (Option α)) (first number : Nat)
    (below : number < first) : (counted first entries).lookup number = none := by
  induction entries generalizing first with
  | nil => rfl
  | cons entry rest ih =>
    have other : (number == first) = false := by
      rw [beq_eq_false_iff_ne]
      omega
    rw [counted_cons]
    cases entry with
    | none => exact ih (first + 1) (by omega)
    | some x =>
      simp only [Option.map_some, Option.toList_some, List.singleton_append, List.lookup_cons, other]
      exact ih (first + 1) (by omega)

theorem lookup_counted (entries : List (Option α)) (first i : Nat) :
    (counted first entries).lookup (first + i) = entries[i]?.join := by
  induction entries generalizing first i with
  | nil => rfl
  | cons entry rest ih =>
    rw [counted_cons]
    cases i with
    | zero =>
      cases entry with
      | none => exact lookup_counted_below rest (first + 1) first (Nat.lt_succ_self first)
      | some x => simp
    | succ i =>
      have next : first + (i + 1) = first + 1 + i := by omega
      have other : (first + 1 + i == first) = false := by
        rw [beq_eq_false_iff_ne]
        omega
      have found := ih (first + 1) i
      rw [next, List.getElem?_cons_succ, ← found]
      cases entry with
      | none => rfl
      | some x => simp [List.lookup_cons, other]

end Counting

theorem Placement.length_origins (p : Placement) : p.origins.length = p.size := by
  simp [Placement.origins, Placement.size, Scope.size]

/-- The words of placements that follow one another are counted through. -/
theorem Contiguous.origins_getElem? {base : Nat} {ps : List Placement}
    (contiguous : Contiguous base ps) (p : Placement) (member : p ∈ ps) (i : Nat)
    (inside : i < p.size) :
    (ps.flatMap Placement.origins)[p.base - base + i]? = p.origins[i]? := by
  induction ps generalizing base with
  | nil => cases member
  | cons q rest ih =>
    obtain ⟨first, later⟩ := contiguous
    have length := q.length_origins
    rw [List.flatMap_cons]
    rcases List.mem_cons.mp member with rfl | below
    · rw [first, Nat.sub_self, Nat.zero_add, List.getElem?_append_left (by omega)]
    · have bounds := later.bounds p below
      have shift : p.base - base + i - q.size = p.base - (base + q.size) + i := by omega
      rw [List.getElem?_append_right (by omega), length, shift]
      exact ih later below

theorem Contiguous.length_origins {base : Nat} {ps : List Placement}
    (contiguous : Contiguous base ps) :
    base + (ps.flatMap Placement.origins).length = endFrom base ps := by
  induction ps generalizing base with
  | nil => rfl
  | cons p rest ih =>
    obtain ⟨_, later⟩ := contiguous
    rw [List.flatMap_cons, List.length_append, p.length_origins, endFrom_cons, ← Nat.add_assoc]
    exact ih later

/-- The scopes and the halt word behind the main scope divide the addresses of a program: the main scope
begins at one, the functions follow one another behind the halt word, no two ranges meet, and there is
nothing else. -/
structure Layout.Tiles (l : Layout) : Prop where
  first : l.main.base = 1
  consecutive : Contiguous (l.main.size + 2) l.functions
  disjoint : l.placements.Pairwise fun p q => p.base + p.size ≤ q.base
  separated : ∀ p ∈ l.placements, p.owns (l.main.size + 1) = false
  covered : ∀ address, 1 ≤ address ∧ address ≤ l.size ↔
    address = l.main.size + 1 ∨ ∃ p ∈ l.placements, p.base ≤ address ∧ address < p.base + p.size

namespace Layout

theorem sourceAt?_zero (l : Layout) : l.sourceAt? 0 = none :=
  lookup_counted_below l.origins 1 0 Nat.one_pos

theorem sourceAt?_succ (l : Layout) (i : Nat) : l.sourceAt? (i + 1) = l.origins[i]?.join := by
  have found := lookup_counted l.origins 1 i
  rw [Nat.add_comm] at found
  exact found

variable {l : Layout} {program : Program}

theorem Places.length_origins (places : l.Places program) : l.origins.length = l.size := by
  have functions := places.contiguous.length_origins
  have main := l.main.length_origins
  rw [l.size_succ] at functions
  simp only [origins, List.length_append, List.length_map, List.length_cons]
  omega

/-- The words of a scope have the sources of its tokens. -/
theorem Places.sourceAt?_inside (places : l.Places program) (p : Placement)
    (member : p ∈ l.placements) (i : Nat) (inside : i < p.size) :
    l.sourceAt? (p.base + i) = p.origins[i]? := by
  have main := l.main.length_origins
  rcases List.mem_cons.mp member with rfl | function
  · rw [places.main_base, Nat.add_comm, l.sourceAt?_succ, origins,
      List.getElem?_append_left (by simp; omega), List.getElem?_map]
    cases l.main.origins[i]? <;> rfl
  · have bounds := places.function_bounds p function
    have address : p.base + i = p.base - (l.main.size + 2) + i + l.main.size + 1 + 1 := by omega
    have behind : p.base - (l.main.size + 2) + i + l.main.size + 1 - l.main.size =
        p.base - (l.main.size + 2) + i + 1 := by omega
    rw [address, l.sourceAt?_succ, origins, List.getElem?_append_right (by simp; omega),
      List.length_map, main, behind, List.getElem?_cons_succ, List.getElem?_map,
      places.contiguous.origins_getElem? p function i inside]
    cases p.origins[i]? <;> rfl

theorem sourceAt?_separator (l : Layout) : l.sourceAt? (l.main.size + 1) = none := by
  have main := l.main.length_origins
  rw [l.sourceAt?_succ, origins, List.getElem?_append_right (by simp; omega)]
  simp [main]

theorem Places.sourceAt?_beyond (places : l.Places program) (address : Nat)
    (beyond : l.size < address) : l.sourceAt? address = none := by
  obtain ⟨i, rfl⟩ : ∃ i, address = i + 1 := ⟨address - 1, by omega⟩
  have length := places.length_origins
  rw [l.sourceAt?_succ, List.getElem?_eq_none (by omega)]
  rfl

/-- All addresses of a program but that of the halt word belong to a scope, and no others do. -/
theorem Places.owned_iff (places : l.Places program) (address : Nat) :
    (∃ p ∈ l.placements, p.owns address = true) ↔
      ¬(address = 0 ∨ address = l.main.size + 1 ∨ l.size < address) := by
  constructor
  · rintro ⟨p, member, owned⟩ outside
    have bounds := places.bounds p member
    have free := places.separator_free p member
    rcases outside with rfl | rfl | beyond
    · rw [owns_iff] at owned
      omega
    · rw [owned] at free
      cases free
    · rw [owns_iff] at owned
      omega
  · intro inside
    rcases places.covered address (by omega) (by omega) with separator | owned
    · exact absurd (.inr (.inl separator)) inside
    · exact owned

theorem Places.tiles (places : l.Places program) : l.Tiles := by
  refine ⟨places.main_base, places.contiguous, .cons ?_ places.contiguous.pairwise,
    places.separator_free, ?_⟩
  · intro p function
    have bounds := places.function_bounds p function
    have main := places.main_base
    omega
  · intro address
    have last := l.main_size_lt
    have owned := places.owned_iff address
    simp only [owns_iff] at owned
    rw [owned]
    omega

theorem Places.scopeAt?_eq_none_iff (places : l.Places program) (address : Nat) :
    l.scopeAt? address = none ↔
      address = 0 ∨ address = l.main.size + 1 ∨ l.size < address := by
  rw [← not_iff_not, ← places.owned_iff address]
  simp [scopeAt?]

/-- The table has an entry for an address if a scope owns it, and then names this scope. -/
theorem Places.sources_agree (places : l.Places program) (address : Nat) :
    (l.scopeAt? address).map (fun p => p.scope.name) = (l.sourceAt? address).map Prod.snd := by
  by_cases outside : address = 0 ∨ address = l.main.size + 1 ∨ l.size < address
  · rw [(places.scopeAt?_eq_none_iff address).mpr outside]
    rcases outside with rfl | rfl | beyond
    · rw [l.sourceAt?_zero]
      rfl
    · rw [l.sourceAt?_separator]
      rfl
    · rw [places.sourceAt?_beyond address beyond]
      rfl
  · obtain ⟨p, member, owned⟩ := (places.owned_iff address).mpr outside
    rw [places.scopeAt?_eq_some p address member owned]
    rw [owns_iff] at owned
    have inside : address - p.base < p.scope.tokens.length := by
      change address - p.base < p.size
      omega
    have found := places.sourceAt?_inside p member (address - p.base) inside
    rw [Nat.add_sub_cancel' owned.1] at found
    rw [found, Placement.origins, List.getElem?_map, List.getElem?_eq_getElem inside]
    rfl

theorem Places.sourceAt?_eq_none_iff (places : l.Places program) (address : Nat) :
    l.sourceAt? address = none ↔
      address = 0 ∨ address = l.main.size + 1 ∨ l.size < address := by
  have agree := places.sources_agree address
  rw [← places.scopeAt?_eq_none_iff address, ← Option.map_eq_none_iff, ← agree,
    Option.map_eq_none_iff]

/-- An entry of the table comes from a token of a scope. -/
theorem Places.origin_of_source (places : l.Places program) (address : Nat) (origin : Origin)
    (name : String) (found : l.sourceAt? address = some (origin, name)) :
    ∃ p ∈ l.placements, ∃ t ∈ p.scope.tokens, t.origin = origin := by
  have inside : ¬(address = 0 ∨ address = l.main.size + 1 ∨ l.size < address) := by
    rw [← places.sourceAt?_eq_none_iff address, found]
    exact Option.some_ne_none _
  obtain ⟨p, member, owned⟩ := (places.owned_iff address).mpr inside
  rw [owns_iff] at owned
  have here := places.sourceAt?_inside p member (address - p.base) (by omega)
  rw [Nat.add_sub_cancel' owned.1, found] at here
  have entry := List.mem_of_getElem? here.symm
  obtain ⟨t, token, same⟩ := List.mem_map.mp entry
  exact ⟨p, member, t, token, congrArg Prod.fst same⟩

/-- The entries of a scope's addresses, in their order. -/
theorem Places.map_sourceAt? (places : l.Places program) (p : Placement)
    (member : p ∈ l.placements) :
    (List.range' p.base p.size).map l.sourceAt? = p.origins.map some := by
  apply List.ext_getElem?
  intro i
  rw [List.getElem?_map, List.getElem?_map]
  by_cases inside : i < p.size
  · have here : i < p.origins.length := by rw [p.length_origins]; exact inside
    rw [List.getElem?_range' inside, Option.map_some, Nat.one_mul,
      places.sourceAt?_inside p member i inside, List.getElem?_eq_getElem here]
    rfl
  · have length := p.length_origins
    rw [List.getElem?_eq_none (by simp; omega), List.getElem?_eq_none (by omega)]
    rfl

end Layout

end Accumulator
