import Accumulator.Proofs.Machine.Run
import Accumulator.Proofs.Program.Placement

set_option autoImplicit false

/-!
The words of an assembled program, read back: which token each word comes from, and what its
literal refers to.
-/

namespace Accumulator

open Source

/-- The codes ascend, so none occurs twice. -/
theorem Instruction.code_nodup : (Instruction.table.map Instruction.code).Nodup := by
  have ascending : (Instruction.table.map fun i => i.code.toNat).IsChain (· < ·) := by
    decide +kernel
  have distinct : ((Instruction.table.map Instruction.code).map BitVec.toNat).Nodup := by
    rw [List.map_map]
    exact (List.isChain_iff_pairwise.mp ascending).imp Nat.ne_of_lt
  exact distinct.of_map

theorem find?_of_nodup {α β : Type} [BEq β] [LawfulBEq β] (f : α → β) (xs : List α) (x : α)
    (distinct : (xs.map f).Nodup) (member : x ∈ xs) : xs.find? (fun y => f y == f x) = some x := by
  induction xs with
  | nil => cases member
  | cons y xs ih =>
    rw [List.map_cons, List.nodup_cons] at distinct
    rw [List.find?_cons]
    rcases List.mem_cons.mp member with rfl | later
    · rw [beq_self_eq_true]
    · have apart : f y ≠ f x := fun same =>
        distinct.1 (same ▸ List.mem_map_of_mem later)
      rw [beq_eq_false_iff_ne.mpr apart]
      exact ih distinct.2 later

/-- Decoding a code of the table finds the instruction it belongs to. -/
theorem Instruction.decode?_code (i : Instruction) (member : i ∈ Instruction.table) :
    Instruction.decode? i.code = some i :=
  find?_of_nodup Instruction.code Instruction.table i Instruction.code_nodup member

theorem Instruction.mem_of_find? {mnemonic : String} {i : Instruction}
    (found : Instruction.find? mnemonic = some i) :
    i ∈ Instruction.table ∧ i.mnemonic = mnemonic :=
  ⟨List.mem_of_find?_eq_some found, by simpa using List.find?_some found⟩

theorem Instruction.var_iff : ∀ i ∈ Instruction.table,
    i.operation = .var ↔ i.mnemonic = "VAR" := by
  decide +kernel

/-- A number is what the literal of a token's word stands for, in a scope of a layout. -/
inductive Layout.Refers (l : Layout) (p : Placement) (t : Token) : Operation → Nat → Prop
  | nothing (operation : Operation) (free : operation.takesOperand = false) (bare : t.args = []) :
      Refers l p t operation 0
  | callee (function : String) (given : List String) (q : Placement)
      (args : t.args = function :: given) (found : l.function? function = some q)
      (arity : q.scope.params.length = given.length) : Refers l p t .call q.base
  | label (name : String) (offset : Nat) (args : t.args = [name])
      (found : p.scope.label? name = some offset) : Refers l p t .goto (p.base + offset)
  | operand (operation : Operation) (taken : operation.takesOperand = true)
      (notCall : operation ≠ .call) (notGoto : operation ≠ .goto) (text : String) (n : Nat)
      (args : t.args = [text]) (resolved : p.resolve text = .ok n) : Refers l p t operation n

theorem Layout.Refers.of_call {l : Layout} {p : Placement} {t : Token} {n : Nat}
    (refers : l.Refers p t .call n) :
    ∃ function given q, t.args = function :: given ∧ l.function? function = some q ∧
      q.scope.params.length = given.length ∧ n = q.base := by
  cases refers with
  | nothing _ free _ => cases free
  | callee function given q args found arity => exact ⟨function, given, q, args, found, arity, rfl⟩
  | operand _ _ notCall _ _ _ _ _ => exact absurd rfl notCall

theorem Layout.Refers.of_goto {l : Layout} {p : Placement} {t : Token} {n : Nat}
    (refers : l.Refers p t .goto n) :
    ∃ name offset, t.args = [name] ∧ p.scope.label? name = some offset ∧ n = p.base + offset := by
  cases refers with
  | nothing _ free _ => cases free
  | label name offset args found => exact ⟨name, offset, args, found, rfl⟩
  | operand _ _ _ notGoto _ _ _ _ => exact absurd rfl notGoto

theorem Placement.resolveJump_eq_ok (p : Placement) (text : String) (n : Nat)
    (resolved : p.resolveJump text = .ok n) :
    ∃ offset, p.scope.label? text = some offset ∧ n = p.base + offset := by
  unfold Placement.resolveJump at resolved
  split at resolved
  · rename_i address labelled
    cases resolved
    obtain ⟨offset, label, rfl⟩ := Option.map_eq_some_iff.mp labelled
    exact ⟨offset, label, rfl⟩
  · cases resolved

theorem Layout.link_callee_eq_ok (l : Layout) (code : BitVec 8) (call : Token) (function : String)
    (given : Nat) (w : Word) (linked : l.link (code, .callee call function given) = .ok w) :
    ∃ q, l.function? function = some q ∧ q.scope.params.length = given ∧
      w = ⟨code, BitVec.ofNat 24 q.base⟩ := by
  unfold Layout.link at linked
  dsimp only at linked
  split at linked
  · cases linked
  · rename_i q callee
    split at linked
    · rename_i arity
      cases linked
      exact ⟨q, callee, arity, rfl⟩
    · cases linked

theorem Layout.refers_of_encode (l : Layout) (p : Placement) (t : Token)
    (e : BitVec 8 × Reference) (w : Word) (encoded : p.encode t = .ok e)
    (linked : l.link e = .ok w) :
    ∃ i n, Instruction.find? t.mnemonic = some i ∧ w = ⟨i.code, BitVec.ofNat 24 n⟩ ∧
      l.Refers p t i.operation n := by
  unfold Placement.encode at encoded
  split at encoded
  · cases encoded
  · rename_i i found
    split at encoded
    · rename_i free
      split at encoded
      · rename_i bare
        cases encoded
        cases linked
        exact ⟨i, 0, found, rfl, .nothing i.operation (by simpa using free) bare⟩
      · cases encoded
    · rename_i taken
      split at encoded
      · rename_i isCall
        split at encoded
        · rename_i function given args
          cases encoded
          obtain ⟨q, callee, arity, rfl⟩ := l.link_callee_eq_ok _ t function _ w linked
          exact ⟨i, q.base, found, rfl, isCall ▸ .callee function given q args callee arity⟩
        · cases encoded
      · rename_i notCall
        split at encoded
        · rename_i text args
          split at encoded
          · rename_i n resolved
            cases encoded
            cases linked
            refine ⟨i, n, found, rfl, ?_⟩
            split at resolved
            · rename_i isGoto
              obtain ⟨offset, label, rfl⟩ := p.resolveJump_eq_ok text n resolved
              exact isGoto ▸ .label text offset args label
            · rename_i notGoto
              exact .operand i.operation (by simpa using taken) notCall notGoto text n args resolved
          · cases encoded
        · cases encoded

/-- A layout of a program whose scopes come from lines, with the words of that layout. -/
structure Layout.Assembles (l : Layout) (program : Program) (words : List Word) : Prop where
  places : l.Places program
  formed : ∀ s ∈ program.scopes, s.Formed
  code : l.code = .ok words

theorem Assembly.assembles {text : List Char} {a : Assembly} {program : Program}
    (compiled : Assembly.ofSource text = .ok a) (parsed : Program.ofSource text = .ok program) :
    a.layout.Assembles program a.words := by
  obtain ⟨other, also, placed, coded⟩ := Assembly.ofSource_eq_ok.mp compiled
  rw [parsed] at also
  cases also
  exact ⟨Layout.places_of_ofProgram placed, Program.formed_of_source text program parsed, coded⟩

section

variable {l : Layout} {program : Program} {words : List Word}

theorem Layout.Places.scopes (places : l.Places program) :
    l.placements.map Placement.scope = program.scopes := by
  unfold Layout.placements Program.scopes
  rw [List.map_cons, places.main, places.functions]

theorem Layout.Places.scope_mem (places : l.Places program) (p : Placement)
    (member : p ∈ l.placements) : p.scope ∈ program.scopes :=
  places.scopes ▸ List.mem_map_of_mem member

/-- Every scope of the program has a place. -/
theorem Layout.Places.placed (places : l.Places program) {s : Scope}
    (member : s ∈ program.scopes) : ∃ p ∈ l.placements, p.scope = s := by
  rw [← places.scopes] at member
  exact List.mem_map.mp member

theorem Layout.Assembles.declares (assembles : l.Assembles program words) (p : Placement)
    (member : p ∈ l.placements) : p.scope.Declares p.vars :=
  (assembles.formed _ (assembles.places.scope_mem p member)).declares
    (assembles.places.declared p member)

/-- The encoded tokens of placements that follow one another stand at the distance of their
addresses. -/
theorem Contiguous.encoded_at {base : Nat} {ps : List Placement}
    {encoded : List (List (BitVec 8 × Reference))} (contiguous : Contiguous base ps)
    (each : List.Forall₂ (fun p es => p.scope.tokens.mapM p.encode = .ok es) ps encoded)
    (p : Placement) (member : p ∈ ps) (i : Nat) (t : Token)
    (found : p.scope.tokens[i]? = some t) :
    ∃ e, p.encode t = .ok e ∧ encoded.flatten[p.base - base + i]? = some e := by
  induction each generalizing base with
  | nil => cases member
  | @cons q es ps encoded first rest ih =>
    obtain ⟨start, later⟩ := contiguous
    have tokens := mapM_eq_ok.mp first
    have length : q.size = es.length := tokens.length_eq
    rw [List.flatten_cons]
    rcases List.mem_cons.mp member with rfl | below
    · obtain ⟨e, placed, encodes⟩ := forall₂_getElem? tokens i t found
      refine ⟨e, encodes, ?_⟩
      rw [start, Nat.sub_self, Nat.zero_add]
      exact List.getElem?_append_left (List.getElem?_eq_some_iff.mp placed).1 ▸ placed
    · obtain ⟨e, encodes, placed⟩ := ih later below
      have bounds := later.bounds p below
      refine ⟨e, encodes, ?_⟩
      rw [List.getElem?_append_right (by omega)]
      rw [show p.base - base + i - es.length = p.base - (base + q.size) + i by omega]
      exact placed

theorem Contiguous.encoded_length {base : Nat} {ps : List Placement}
    {encoded : List (List (BitVec 8 × Reference))}
    (each : List.Forall₂ (fun p es => p.scope.tokens.mapM p.encode = .ok es) ps encoded) :
    base + encoded.flatten.length = endFrom base ps := by
  induction each generalizing base with
  | nil => rfl
  | @cons q es ps encoded first rest ih =>
    have length : q.size = es.length := (mapM_eq_ok.mp first).length_eq
    rw [List.flatten_cons, List.length_append, endFrom_cons, ← ih]
    omega

/-- The three parts that the words of a program are linked from. -/
theorem Layout.code_eq_ok (coded : l.code = .ok words) :
    ∃ main functions, l.main.scope.tokens.mapM l.main.encode = .ok main ∧
      List.Forall₂ (fun p es => p.scope.tokens.mapM p.encode = .ok es) l.functions functions ∧
      List.Forall₂ (fun e w => l.link e = .ok w) (main ++ (0, .value 0) :: functions.flatten)
        words := by
  unfold Layout.code at coded
  obtain ⟨main, first, coded⟩ := bind_eq_ok.mp coded
  obtain ⟨functions, rest, coded⟩ := bind_eq_ok.mp coded
  exact ⟨main, functions, first, mapM_eq_ok.mp rest, mapM_eq_ok.mp coded⟩

theorem Layout.Assembles.word_at (assembles : l.Assembles program words) (p : Placement)
    (member : p ∈ l.placements) (i : Nat) (t : Token) (found : p.scope.tokens[i]? = some t) :
    ∃ e w, p.encode t = .ok e ∧ l.link e = .ok w ∧ words[p.base + i - 1]? = some w := by
  obtain ⟨main, functions, first, rest, linked⟩ := Layout.code_eq_ok assembles.code
  have tokens := mapM_eq_ok.mp first
  have length : l.main.size = main.length := tokens.length_eq
  have encoded : ∃ e, p.encode t = .ok e ∧
      (main ++ (0, .value 0) :: functions.flatten)[p.base + i - 1]? = some e := by
    rcases List.mem_cons.mp member with rfl | function
    · obtain ⟨e, placed, encodes⟩ := forall₂_getElem? tokens i t found
      refine ⟨e, encodes, ?_⟩
      rw [assembles.places.main_base, Nat.add_sub_cancel_left]
      rw [List.getElem?_append_left (List.getElem?_eq_some_iff.mp placed).1]
      exact placed
    · obtain ⟨e, encodes, placed⟩ :=
        assembles.places.contiguous.encoded_at rest p function i t found
      have bounds := assembles.places.function_bounds p function
      refine ⟨e, encodes, ?_⟩
      rw [List.getElem?_append_right (by omega),
        show p.base + i - 1 - main.length = (p.base - (l.main.size + 2) + i) + 1 by omega,
        List.getElem?_cons_succ]
      exact placed
  obtain ⟨e, encodes, placed⟩ := encoded
  obtain ⟨w, emitted, links⟩ := forall₂_getElem? linked _ e placed
  exact ⟨e, w, encodes, links, emitted⟩

theorem Layout.Assembles.separator (assembles : l.Assembles program words) :
    words[l.main.size]? = some Word.halt := by
  obtain ⟨main, functions, first, _, linked⟩ := Layout.code_eq_ok assembles.code
  have length : l.main.size = main.length := (mapM_eq_ok.mp first).length_eq
  have placed : (main ++ (0, .value 0) :: functions.flatten)[l.main.size]? =
      some ((0, .value 0) : BitVec 8 × Reference) := by
    rw [length, List.getElem?_append_right (Nat.le_refl _), Nat.sub_self, List.getElem?_cons_zero]
  obtain ⟨w, emitted, links⟩ := forall₂_getElem? linked _ _ placed
  cases links
  exact emitted

theorem Layout.Assembles.length (assembles : l.Assembles program words) :
    words.length = l.size := by
  obtain ⟨main, functions, first, rest, linked⟩ := Layout.code_eq_ok assembles.code
  have mainLength : l.main.size = main.length := (mapM_eq_ok.mp first).length_eq
  have flattened : l.main.size + 2 + functions.flatten.length = l.size + 1 :=
    (Contiguous.encoded_length rest).trans l.size_succ
  have lengths := linked.length_eq
  rw [List.length_append, List.length_cons] at lengths
  omega

end

end Accumulator
