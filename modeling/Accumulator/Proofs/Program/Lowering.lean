import Accumulator.Proofs.Program.Names
import Accumulator.Proofs.Text.Numeral

set_option autoImplicit false

/-!
The words of a scope told from its lines: the declarations come first, then each other instruction
has a block of words, one word but for a call with arguments. A label stands before the block of the
next instruction behind it that is not a declaration.
-/

namespace Accumulator

open Source

section Lists

variable {α β γ : Type} {R : β → γ → Prop}

theorem forall₂_append_left (xs ys : List β) (zs : List γ) (related : List.Forall₂ R (xs ++ ys) zs) :
    ∃ front back, zs = front ++ back ∧ List.Forall₂ R xs front ∧ List.Forall₂ R ys back := by
  induction xs generalizing zs with
  | nil => exact ⟨[], zs, rfl, .nil, related⟩
  | cons x xs ih =>
    obtain ⟨z, rest, here, later, rfl⟩ := List.forall₂_cons_left_iff.mp related
    obtain ⟨front, back, rfl, first, last⟩ := ih rest later
    exact ⟨z :: front, back, rfl, .cons here first, last⟩

/-- What corresponds to the images of elements falls into one block for each of them. -/
theorem forall₂_flatMap_left (f : α → List β) (xs : List α) (zs : List γ)
    (related : List.Forall₂ R (xs.flatMap f) zs) :
    ∃ blocks, zs = blocks.flatten ∧
      List.Forall₂ (fun x block => List.Forall₂ R (f x) block) xs blocks := by
  induction xs generalizing zs with
  | nil =>
    cases related
    exact ⟨[], rfl, .nil⟩
  | cons x xs ih =>
    rw [List.flatMap_cons] at related
    obtain ⟨block, rest, rfl, here, later⟩ := forall₂_append_left _ _ _ related
    obtain ⟨blocks, rfl, each⟩ := ih rest later
    exact ⟨block :: blocks, rfl, .cons here each⟩

theorem length_flatten_of_blocks (f : α → List β) (xs : List α) (blocks : List (List γ))
    (each : List.Forall₂ (fun x block => List.Forall₂ R (f x) block) xs blocks) :
    blocks.flatten.length = (xs.flatMap f).length := by
  induction each with
  | nil => rfl
  | cons here _ ih =>
    rw [List.flatten_cons, List.flatMap_cons, List.length_append, List.length_append, ih,
      here.length_eq]

theorem length_flatten_of_pairs {R : α → List γ → Prop}
    (two : ∀ x pair, R x pair → pair.length = 2) {xs : List α} {pairs : List (List γ)}
    (each : List.Forall₂ R xs pairs) : pairs.flatten.length = 2 * xs.length := by
  induction each with
  | nil => rfl
  | cons here _ ih =>
    rw [List.flatten_cons, List.length_append, List.length_cons, two _ _ here, ih]
    omega

theorem forall₂_of_map_eq {f : α → γ} {g : β → γ} {R : α → β → Prop} {xs : List α}
    {ys : List β} (same : xs.map f = ys.map g)
    (each : ∀ x ∈ xs, ∀ y ∈ ys, f x = g y → R x y) : List.Forall₂ R xs ys := by
  induction xs generalizing ys with
  | nil =>
    rw [List.map_nil] at same
    rw [List.map_eq_nil_iff.mp same.symm]
    exact .nil
  | cons x xs ih =>
    obtain ⟨y, rest, rfl, here, later⟩ := List.map_eq_cons_iff.mp same.symm
    refine .cons (each x List.mem_cons_self y List.mem_cons_self here.symm) (ih later.symm ?_)
    intro other member other' member'
    exact each other (List.mem_cons_of_mem _ member) other' (List.mem_cons_of_mem _ member')

end Lists

section Decimal

theorem numeral?_of_digits (cs : List Char) (some : cs ≠ [])
    (digital : ∀ c ∈ cs, c.isDigit = true) : numeral? cs = .some (10, cs) := by
  unfold numeral?
  split
  · exact absurd (digital 'b' (by simp)) (by decide)
  · exact absurd (digital 'x' (by simp)) (by decide)
  · exact absurd (digital 'd' (by simp)) (by decide)
  · rename_i c cs _ _ _
    have digit : c.isDigit = true := digital c List.mem_cons_self
    simp [digit]
  · exact absurd rfl some

theorem signedValue?_of_digits (base : Nat) (cs : List Char)
    (digital : ∀ c ∈ cs, c.isDigit = true) :
    signedValue? base cs = Text.readDigits base cs := by
  unfold signedValue?
  split
  · exact absurd (digital '+' (by simp)) (by decide)
  · exact absurd (digital '-' (by simp)) (by decide)
  · rfl

theorem numeral?_toString (n : Nat) :
    numeral? (toString n).toList = some (10, Nat.toDigits 10 n) := by
  rw [Nat.toString_eq_repr, Nat.toList_repr]
  apply numeral?_of_digits _ Nat.toDigits_ne_nil
  exact fun c member => Nat.isDigit_of_mem_toDigits (by decide) (by decide) member

theorem not_isIdentifier_of_numberShaped {text : String} (shaped : numberShaped text = true) :
    Text.isIdentifier text = false := by
  rw [Bool.eq_false_iff]
  intro identifier
  have name := (numeral?_eq_none_iff text).mp (numeral?_of_identifier text identifier)
  rw [shaped] at name
  cases name

theorem numberShaped_toString (n : Nat) : numberShaped (toString n) = true := by
  unfold numberShaped
  rw [← numeral?_isSome, numeral?_toString]
  rfl

theorem literalValue?_toString (n : Nat) : literalValue? (toString n) = some n := by
  have digital : ∀ c ∈ Nat.toDigits 10 n, c.isDigit = true := fun c member =>
    Nat.isDigit_of_mem_toDigits (by decide) (by decide) member
  unfold literalValue?
  rw [numeral?_toString, Option.bind_some]
  dsimp only
  rw [signedValue?_of_digits 10 _ digital, Text.readDigits_toDigits]

/-- A number in decimal stands for itself, in every scope. -/
theorem Placement.resolve_toString (p : Placement) {n : Nat} (fits : n < literalBound) :
    p.resolve (toString n) = .ok n := by
  have digital : ∀ c ∈ Nat.toDigits 10 n, c.isDigit = true := fun c member =>
    Nat.isDigit_of_mem_toDigits (by decide) (by decide) member
  unfold Placement.resolve
  rw [numeral?_toString]
  dsimp only
  rw [signedValue?_of_digits 10 _ digital, Text.readDigits_toDigits, Option.filter_some,
    if_pos (decide_eq_true fits)]

/-- No other number is denoted by it. -/
theorem Placement.Denotes.of_decimal {p : Placement} {n m : Nat}
    (denotes : p.Denotes (toString n) m) : m = n := by
  have shaped := numberShaped_toString n
  cases denotes with
  | number _ _ value _ =>
    rw [literalValue?_toString] at value
    exact (Option.some.inj value).symm
  | declaration _ name _ =>
    rw [shaped] at name
    cases name
  | label _ name _ _ =>
    rw [shaped] at name
    cases name

end Decimal

/-- A line that declares a variable. -/
def Source.Token.declares (t : Token) : Bool := t.kind == .instruction && t.isDeclaration

/-- A line with any other instruction. -/
def Source.Token.executes (t : Token) : Bool := t.kind == .instruction && !t.isDeclaration

namespace Layout

/-- Two words pass an argument into a cell: one loads it, from its variable if it is an identifier,
and the other one stores it. -/
def Passes (l : Layout) (p : Placement) (argument : String) (cell : Nat) (pair : List Word) : Prop :=
  ∃ load store i, pair = [load, store] ∧
    l.Encodes p (if Text.isIdentifier argument then "MOVFW" else "MOVLW") [argument] load ∧
    Instruction.find? "MOVWF" = some i ∧ store = ⟨i.code, BitVec.ofNat 24 cell⟩

/-- The words of an instruction in a scope with `frame` variables. The arguments of a call are passed
into the cells past the frame before the word of the call. -/
inductive Emits (l : Layout) (p : Placement) (frame : Nat) (t : Token) : List Word → Prop
  | single (w : Word) (plain : t.mnemonic ≠ "CALL" ∨ t.args.length ≤ 1)
      (encodes : l.Encodes p t.mnemonic t.args w) : Emits l p frame t [w]
  | call (function : String) (arguments : List String) (pairs : List (List Word)) (w : Word)
      (isCall : t.mnemonic = "CALL") (args : t.args = function :: arguments)
      (passing : arguments ≠ [])
      (passed : List.Forall₂ (fun argument pair => l.Passes p argument.1 (frame + argument.2) pair)
        (arguments.zipIdx 1) pairs)
      (encodes : l.Encodes p t.mnemonic t.args w) : Emits l p frame t (pairs.flatten ++ [w])

/-- The words of a scope are those of its declarations, then one block for each other instruction,
in the order of the lines. Each label has for its offset the number of words before the block of the
next instruction that is no declaration, and there are no other labels. -/
structure Arranges (l : Layout) (p : Placement) (lines : List Token) (words : List Word)
    (declarations : List Word) (blocks : List (List Word)) : Prop where
  words : words = declarations ++ blocks.flatten
  declared : List.Forall₂ (fun t w => l.Encodes p t.mnemonic t.args w)
    (lines.filter Token.declares) declarations
  emitted : List.Forall₂ (l.Emits p declarations.length) (lines.filter Token.executes) blocks
  sizes : List.Forall₂ (fun t block =>
    block.length = if t.mnemonic = "CALL" then 2 * (t.args.length - 1) + 1 else 1)
    (lines.filter Token.executes) blocks
  jumps : List.Forall₂ (fun t block => t.mnemonic = "GOTO" → ∃ name offset, t.args = [name] ∧
    p.scope.label? name = some offset ∧ block = [⟨0x0C, BitVec.ofNat 24 (p.base + offset)⟩])
    (lines.filter Token.executes) blocks
  labels : ∀ before t after name, lines = before ++ t :: after → t.placedLabel? = some name →
    p.scope.label? name =
      some (declarations ++ (blocks.take (before.filter Token.executes).length).flatten).length
  placed : ∀ name offset, p.scope.label? name = some offset →
    ∃ t ∈ lines, t.placedLabel? = some name

theorem Passes.length {l : Layout} {p : Placement} {argument : String} {cell : Nat}
    {pair : List Word} (passes : l.Passes p argument cell pair) : pair.length = 2 := by
  obtain ⟨load, store, _, rfl, _⟩ := passes
  rfl

/-- A call has two words for each argument, and its own. -/
theorem Emits.length {l : Layout} {p : Placement} {frame : Nat} {t : Token} {block : List Word}
    (emits : l.Emits p frame t block) :
    block.length = if t.mnemonic = "CALL" then 2 * (t.args.length - 1) + 1 else 1 := by
  cases emits with
  | single w plain _ =>
    rcases plain with other | short
    · rw [if_neg other]
      rfl
    · have none : t.args.length - 1 = 0 := by omega
      rw [none]
      split <;> rfl
  | call function arguments pairs w isCall args _ passed _ =>
    have words := length_flatten_of_pairs (fun _ _ => Passes.length) passed
    rw [if_pos isCall, List.length_append, words, List.length_zipIdx, args]
    rfl

/-- A jump has one word, which carries the address of a label of its scope. -/
theorem Emits.jump {l : Layout} {p : Placement} {frame : Nat} {t : Token} {block : List Word}
    (emits : l.Emits p frame t block) (isGoto : t.mnemonic = "GOTO") :
    ∃ name offset, t.args = [name] ∧ p.scope.label? name = some offset ∧
      block = [⟨0x0C, BitVec.ofNat 24 (p.base + offset)⟩] := by
  cases emits with
  | single w _ encodes =>
    obtain ⟨i, n, known, rfl, carries⟩ := encodes
    have goto : Instruction.find? "GOTO" = some ⟨"GOTO", 0x0C, .goto⟩ := by decide +kernel
    rw [isGoto, goto] at known
    cases known
    cases carries with
    | nothing _ free _ => cases free
    | target name offset single placed => exact ⟨name, offset, single, placed, rfl⟩
    | operand _ _ _ notGoto _ _ _ _ => exact absurd rfl notGoto
  | call function arguments pairs w isCall _ _ _ _ =>
    rw [isGoto] at isCall
    exact absurd isCall (by decide)

theorem Encodes.store {l : Layout} {p : Placement} {cell : Nat} {w : Word}
    (encodes : l.Encodes p "MOVWF" [toString cell] w) :
    ∃ i, Instruction.find? "MOVWF" = some i ∧ w = ⟨i.code, BitVec.ofNat 24 cell⟩ := by
  obtain ⟨i, n, known, rfl, carries⟩ := encodes
  have store : Instruction.find? "MOVWF" = some ⟨"MOVWF", 0x05, .movWF⟩ := by decide +kernel
  refine ⟨i, known, ?_⟩
  rw [store] at known
  cases known
  cases carries with
  | nothing _ free _ => cases free
  | operand _ _ _ _ text _ single denotes =>
    cases single
    rw [denotes.of_decimal]

theorem passes_of_encodes {l : Layout} {p : Placement} {call : Token} {argument : String}
    {cell : Nat} {pair : List Word}
    (encoded : List.Forall₂ (fun t w => l.Encodes p t.mnemonic t.args w)
      (passArgument call argument cell) pair) : l.Passes p argument cell pair := by
  unfold passArgument at encoded
  obtain ⟨load, rest, loads, second, rfl⟩ := List.forall₂_cons_left_iff.mp encoded
  obtain ⟨store, none, stores, last, rfl⟩ := List.forall₂_cons_left_iff.mp second
  obtain rfl := List.forall₂_nil_left_iff.mp last
  obtain ⟨i, known, rfl⟩ := Encodes.store stores
  exact ⟨load, _, i, rfl, loads, known, rfl⟩

theorem emits_of_encodes {l : Layout} {p : Placement} {frame : Nat} {t : Token} {block : List Word}
    (instruction : t.isLabel = false)
    (encoded : List.Forall₂ (fun t w => l.Encodes p t.mnemonic t.args w) (expandBody frame t)
      block) : l.Emits p frame t block := by
  have alone : ∀ w, List.Forall₂ (fun t w => l.Encodes p t.mnemonic t.args w) [t] w →
      ∃ word, w = [word] ∧ l.Encodes p t.mnemonic t.args word := by
    intro w single
    obtain ⟨word, rest, encodes, none, rfl⟩ := List.forall₂_cons_left_iff.mp single
    obtain rfl := List.forall₂_nil_left_iff.mp none
    exact ⟨word, rfl, encodes⟩
  unfold expandBody at encoded
  rw [if_neg (by rw [instruction]; exact Bool.false_ne_true)] at encoded
  split at encoded
  · rename_i isCall
    obtain ⟨preamble, last, rfl, passing, call⟩ := forall₂_append_left _ _ _ encoded
    obtain ⟨w, rfl, encodes⟩ := alone last call
    obtain ⟨pairs, rfl, passed⟩ := forall₂_flatMap_left _ _ _ passing
    cases args : t.args with
    | nil =>
      rw [args] at passed
      cases passed
      exact .single w (.inr (by rw [args]; exact Nat.zero_le 1)) encodes
    | cons function arguments =>
      rw [args, List.tail_cons] at passed
      cases arguments with
      | nil =>
        cases passed
        exact .single w (.inr (by rw [args]; exact Nat.le_refl 1)) encodes
      | cons argument arguments =>
        refine .call function _ pairs w isCall args (List.cons_ne_nil _ _) ?_ encodes
        exact passed.imp fun _ _ => passes_of_encodes
  · rename_i notCall
    obtain ⟨w, rfl, encodes⟩ := alone block encoded
    exact .single w (.inl notCall) encodes

theorem emits_of_blocks {l : Layout} {p : Placement} {frame : Nat} {lines : List Token}
    {blocks : List (List Word)} (instructions : ∀ t ∈ lines, t.isLabel = false)
    (encoded : List.Forall₂ (fun t block => List.Forall₂ (fun t w => l.Encodes p t.mnemonic t.args w)
      (expandBody frame t) block) lines blocks) :
    List.Forall₂ (l.Emits p frame) lines blocks := by
  induction encoded with
  | nil => exact .nil
  | cons first _ ih =>
    refine .cons (emits_of_encodes (instructions _ List.mem_cons_self) first) ?_
    exact ih fun t member => instructions t (List.mem_cons_of_mem _ member)

end Layout

section Lines

theorem Source.Token.idle_of_placedLabel {t : Token} {name : String}
    (places : t.placedLabel? = some name) : t.declares = false ∧ t.executes = false := by
  have other : (t.kind == .instruction) = false := by
    rw [beq_eq_false_iff_ne]
    intro instruction
    rw [Token.placedLabel?_of_instruction instruction] at places
    cases places
  unfold Token.declares Token.executes
  simp [other]

theorem Source.Token.instruction_cases {t : Token} (instruction : t.kind = .instruction) :
    t.isLabel = false ∧ t.declares = t.isDeclaration ∧ t.executes = !t.isDeclaration := by
  unfold Token.isLabel Token.declares Token.executes
  rw [instruction]
  exact ⟨rfl, rfl, rfl⟩

theorem Source.Token.unlabelled_of_executes {t : Token} (executes : t.executes = true) :
    t.isLabel = false := by
  unfold Token.executes at executes
  rw [Bool.and_eq_true, beq_iff_eq] at executes
  exact (Token.instruction_cases executes.1).1

/-- Lines of a body none of which places a label that would count as a declaration. -/
structure BodyLines (lines : List Token) : Prop where
  inside : ∀ t ∈ lines, t.InBody
  plain : ∀ t ∈ lines, t.placedLabel? ≠ some "VAR"

theorem BodyLines.tail {t : Token} {lines : List Token} (body : BodyLines (t :: lines)) :
    BodyLines lines :=
  ⟨fun other member => body.inside other (List.mem_cons_of_mem _ member),
    fun other member => body.plain other (List.mem_cons_of_mem _ member)⟩

theorem BodyLines.front {before after : List Token} (body : BodyLines (before ++ after)) :
    BodyLines before :=
  ⟨fun t member => body.inside t (List.mem_append_left _ member),
    fun t member => body.plain t (List.mem_append_left _ member)⟩

/-- The labels of these lines are not hoisted. -/
theorem BodyLines.label_stays {lines : List Token} (body : BodyLines lines) {t : Token}
    {name : String} (member : t ∈ lines) (places : t.placedLabel? = some name)
    (kept : t.kept = ⟨.label, name, [], t.origin⟩) : t.kept.isDeclaration = false := by
  rw [kept]
  change (name == "VAR") = false
  rw [beq_eq_false_iff_ne]
  rintro rfl
  exact body.plain t member places

theorem BodyLines.declarations {lines : List Token} (body : BodyLines lines) :
    (lines.map Token.kept).filter Token.isDeclaration = lines.filter Token.declares := by
  induction lines with
  | nil => rfl
  | cons t lines ih =>
    have later := ih body.tail
    rcases (body.inside t List.mem_cons_self).cases with
      ⟨name, places, kept⟩ | ⟨instruction, _, kept⟩
    · have stays := body.label_stays List.mem_cons_self places kept
      have idle := Token.idle_of_placedLabel places
      rw [List.map_cons, List.filter_cons, List.filter_cons, stays, idle.1, later]
      rfl
    · have declares := (Token.instruction_cases instruction).2.1
      rw [List.map_cons, List.filter_cons, List.filter_cons, kept, declares, later]

/-- Only the instructions that are no declarations leave words in the code of a scope. -/
theorem BodyLines.code {lines : List Token} (body : BodyLines lines) (frame : Nat) :
    ((lines.map Token.kept).filter fun t => !t.isDeclaration).flatMap (expandBody frame) =
      (lines.filter Token.executes).flatMap (expandBody frame) := by
  induction lines with
  | nil => rfl
  | cons t lines ih =>
    have later := ih body.tail
    rcases (body.inside t List.mem_cons_self).cases with
      ⟨name, places, kept⟩ | ⟨instruction, _, kept⟩
    · have wordless : expandBody frame t.kept = [] := by
        rw [kept]
        rfl
      have stays := body.label_stays List.mem_cons_self places kept
      have idle := Token.idle_of_placedLabel places
      rw [List.map_cons, List.filter_cons, List.filter_cons, stays, idle.2]
      simp only [Bool.not_false, ↓reduceIte, Bool.false_eq_true, List.flatMap_cons, wordless,
        List.nil_append, later]
    · have executes := (Token.instruction_cases instruction).2.2
      rw [List.map_cons, List.filter_cons, List.filter_cons, kept, executes]
      split
      · rw [List.flatMap_cons, List.flatMap_cons, later]
      · exact later

theorem labelOffsets_mem (frame offset : Nat) (before : List Token) (t : Token) (after : List Token)
    (label : t.isLabel = true) :
    (t.mnemonic, offset + (before.flatMap (expandBody frame)).length) ∈
      labelOffsets frame offset (before ++ t :: after) := by
  induction before generalizing offset with
  | nil =>
    rw [List.nil_append]
    unfold labelOffsets
    rw [if_pos label]
    exact List.mem_cons_self
  | cons line before ih =>
    rw [List.cons_append, List.flatMap_cons, List.length_append]
    unfold labelOffsets
    by_cases other : line.isLabel = true
    · have wordless : expandBody frame line = [] := by
        unfold expandBody
        rw [if_pos other]
      rw [if_pos other, wordless, List.length_nil, Nat.zero_add]
      exact List.mem_cons_of_mem _ (ih offset)
    · rw [if_neg other, ← Nat.add_assoc]
      exact ih (offset + (expandBody frame line).length)

end Lines

section Scopes

variable {l : Layout} {p : Placement} {name : String} {header terminator : Option Token}
  {params : List String} {lines : List Token} {words : List Word}

theorem Scope.Declares.bodyLines (inside : ∀ t ∈ lines, t.InBody)
    (shape : p.scope = Scope.ofBody name header params (lines.map Token.kept) terminator)
    (declares : p.scope.Declares p.vars) : BodyLines lines := by
  refine ⟨inside, ?_⟩
  intro t member places
  have kept : t.kept = ⟨.label, "VAR", [], t.origin⟩ := by
    unfold Token.kept
    rw [places]
  have hoisted : t.kept ∈ (lines.map Token.kept).filter Token.isDeclaration := by
    rw [List.mem_filter]
    refine ⟨List.mem_map_of_mem member, ?_⟩
    rw [kept]
    rfl
  have token : t.kept ∈ p.scope.tokens.filter Token.isDeclaration := by
    rw [List.mem_filter, shape]
    exact ⟨List.mem_append_left _ hoisted, (List.mem_filter.mp hoisted).2⟩
  obtain ⟨_, _, args, _⟩ := forall₂_exists_of_mem declares.names t.kept token
  rw [kept] at args
  cases args

theorem BodyLines.tokens (body : BodyLines lines) (name : String) (header : Option Token)
    (params : List String) (terminator : Option Token) :
    (Scope.ofBody name header params (lines.map Token.kept) terminator).tokens =
      lines.filter Token.declares ++
        (lines.filter Token.executes).flatMap
          (expandBody (lines.filter Token.declares).length) := by
  rw [← body.code, ← body.declarations]
  rfl

theorem BodyLines.label_mem (body : BodyLines lines) (name : String) (header : Option Token)
    (params : List String) (terminator : Option Token) (before after : List Token) (t : Token)
    (label : String) (split : lines = before ++ t :: after)
    (places : t.placedLabel? = some label) :
    (label, (lines.filter Token.declares).length +
        ((before.filter Token.executes).flatMap
          (expandBody (lines.filter Token.declares).length)).length) ∈
      (Scope.ofBody name header params (lines.map Token.kept) terminator).labels := by
  have kept : t.kept = ⟨.label, label, [], t.origin⟩ := by
    unfold Token.kept
    rw [places]
  have stays := body.label_stays (by simp [split]) places kept
  have earlier : BodyLines before := BodyLines.front (split ▸ body)
  rw [← body.declarations, ← earlier.code]
  generalize frame : ((lines.map Token.kept).filter Token.isDeclaration).length = k
  have code : (lines.map Token.kept).filter (fun t => !t.isDeclaration) =
      ((before.map Token.kept).filter fun t => !t.isDeclaration) ++
        t.kept :: (after.map Token.kept).filter fun t => !t.isDeclaration := by
    rw [split, List.map_append, List.map_cons, List.filter_append, List.filter_cons, stays]
    rfl
  have listed := labelOffsets_mem k k ((before.map Token.kept).filter fun t => !t.isDeclaration)
    t.kept ((after.map Token.kept).filter fun t => !t.isDeclaration) (by rw [kept]; rfl)
  rw [← code] at listed
  unfold Scope.ofBody
  dsimp only
  rw [frame]
  apply List.mem_append_right
  rw [kept] at listed
  exact listed

theorem Scope.placed_of_label (inside : ∀ t ∈ lines, t.InBody) (label : String) (offset : Nat)
    (found : (Scope.ofBody name header params (lines.map Token.kept) terminator).label? label =
      some offset) : ∃ t ∈ lines, t.placedLabel? = some label := by
  have listed := lookup_mem _ label offset found
  have named := List.mem_map_of_mem (f := Prod.fst) listed
  rw [(Scope.ofBody_label_names ..).mem_iff, labelNames_kept lines inside] at named
  exact List.mem_filterMap.mp named

/-- The words that encode the tokens of a scope are arranged as its lines say. -/
theorem Layout.arranges_of_encodes (inside : ∀ t ∈ lines, t.InBody)
    (shape : p.scope = Scope.ofBody name header params (lines.map Token.kept) terminator)
    (declares : p.scope.Declares p.vars) (distinct : (p.scope.labels.map Prod.fst).Nodup)
    (encoded : List.Forall₂ (fun t w => l.Encodes p t.mnemonic t.args w) p.scope.tokens words) :
    ∃ declarations blocks, l.Arranges p lines words declarations blocks := by
  have body := declares.bodyLines inside shape
  have tokens := body.tokens name header params terminator
  rw [← shape] at tokens
  rw [tokens] at encoded
  obtain ⟨declarations, rest, rfl, declared, code⟩ := forall₂_append_left _ _ _ encoded
  obtain ⟨blocks, rfl, each⟩ := forall₂_flatMap_left _ _ _ code
  have frame : (lines.filter Token.declares).length = declarations.length := declared.length_eq
  rw [frame] at each
  have instructions : ∀ t ∈ lines.filter Token.executes, t.isLabel = false :=
    fun t member => Token.unlabelled_of_executes (List.mem_filter.mp member).2
  have emitted := Layout.emits_of_blocks instructions each
  refine ⟨declarations, blocks, rfl, declared, emitted, ?_, ?_, ?_, ?_⟩
  · exact emitted.imp fun _ _ => Layout.Emits.length
  · exact emitted.imp fun _ _ => Layout.Emits.jump
  · intro before t after label split places
    have listed :=
      body.label_mem name header params terminator before after t label split places
    rw [← shape, frame] at listed
    have first : (lines.filter Token.executes).take (before.filter Token.executes).length =
        before.filter Token.executes := by
      rw [split, List.filter_append, List.take_left]
    have counted := length_flatten_of_blocks _ _ _
      (List.forall₂_take (before.filter Token.executes).length each)
    rw [first] at counted
    rw [Scope.label?_of_mem distinct label _ listed, List.length_append, counted]
  · intro label offset found
    rw [shape] at found
    exact Scope.placed_of_label inside label offset found

end Scopes

end Accumulator
