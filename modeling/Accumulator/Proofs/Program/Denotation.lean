import Accumulator.Proofs.Program.Operand

set_option autoImplicit false

/-!
What operands denote, told from the words of a scope instead of the tables that are built from them,
and which tokens are encoded as which words. A name is looked up among the declarations first, then
among the labels; a text that has the shape of a number is never looked up.
-/

namespace Accumulator

open Source

/-- Whether a text has the shape of a number: it begins with a decimal digit or a minus sign. -/
def numberShaped (text : String) : Bool :=
  text.toList.head?.any fun c => c.isDigit || c == '-'

/-- The number that a text in the shape of a number is read as. -/
def literalValue? (text : String) : Option Nat :=
  (numeral? text.toList).bind fun (base, digits) => signedValue? base digits

theorem numeral?_isSome (cs : List Char) :
    (numeral? cs).isSome = cs.head?.any fun c => c.isDigit || c == '-' := by
  unfold numeral?
  split
  · rfl
  · rfl
  · rfl
  · rename_i c cs _ _ _
    by_cases shaped : (c.isDigit || c == '-') = true <;> simp [shaped]
  · rfl

theorem numeral?_eq_none_iff (text : String) :
    numeral? text.toList = none ↔ numberShaped text = false := by
  unfold numberShaped
  rw [← numeral?_isSome, Option.isSome_eq_false_iff, Option.isNone_iff_eq_none]

/-- The word of a scope with an index declares the variable of a name. -/
def Scope.DeclaresAt (s : Scope) (rank : Nat) (name : String) : Prop :=
  ∃ t, s.tokens[rank]? = some t ∧ t.isDeclaration = true ∧ t.args = [name]

theorem Scope.Declares.idxOf?_iff {s : Scope} {vars : List String} (declares : s.Declares vars)
    (name : String) (rank : Nat) : vars.idxOf? name = some rank ↔ s.DeclaresAt rank name := by
  constructor
  · intro ranked
    obtain ⟨below, here, _⟩ := List.idxOf?_eq_some_iff.mp ranked
    have inside : rank < s.tokens.length := Nat.lt_of_lt_of_le below declares.fits
    have found : s.tokens[rank]? = some s.tokens[rank] := List.getElem?_eq_getElem inside
    obtain ⟨declared, args, _, placed⟩ := declares.named rank _ below found
    have same : declared = name := by
      rw [List.getElem?_eq_getElem below, here] at placed
      exact (Option.some.inj placed).symm
    exact ⟨_, found, (declares.first rank _ found).mpr below, same ▸ args⟩
  · rintro ⟨t, found, declaration, args⟩
    have below := (declares.first rank t found).mp declaration
    obtain ⟨declared, also, _, placed⟩ := declares.named rank t below found
    obtain rfl : name = declared := by
      rw [args] at also
      exact List.singleton_inj.mp also
    exact idxOf?_of_nodup vars rank name declares.nodup placed

theorem Scope.Declares.idxOf?_eq_none_iff {s : Scope} {vars : List String}
    (declares : s.Declares vars) (name : String) :
    vars.idxOf? name = none ↔ ∀ rank, ¬ s.DeclaresAt rank name := by
  constructor
  · intro unknown rank declared
    rw [(declares.idxOf?_iff name rank).mpr declared] at unknown
    cases unknown
  · intro undeclared
    cases ranked : vars.idxOf? name with
    | none => rfl
    | some rank => exact absurd ((declares.idxOf?_iff name rank).mp ranked) (undeclared rank)

/-- What an operand denotes in a scope: the number that it writes; else the rank, from one on, of the
declaration of its name; else the address of the label of its name. -/
inductive Placement.Denotes (p : Placement) (text : String) : Nat → Prop
  | number (n : Nat) (shaped : numberShaped text = true) (value : literalValue? text = some n)
      (fits : n < literalBound) : Denotes p text n
  | declaration (rank : Nat) (name : numberShaped text = false)
      (declared : p.scope.DeclaresAt rank text) : Denotes p text (rank + 1)
  | label (offset : Nat) (name : numberShaped text = false)
      (undeclared : ∀ rank, ¬ p.scope.DeclaresAt rank text)
      (placed : p.scope.label? text = some offset) : Denotes p text (p.base + offset)

/-- What may stand as an operand in a scope: a number that fits the literal field of a word, or a
name that the scope knows. -/
def Scope.Admits (s : Scope) (text : String) : Prop :=
  (numberShaped text = true ∧ ∃ n, literalValue? text = some n ∧ n < literalBound) ∨
  (numberShaped text = false ∧
    ((∃ rank, s.DeclaresAt rank text) ∨ ∃ offset, s.label? text = some offset))

theorem Placement.denotes_iff_admits (p : Placement) (text : String) :
    (∃ n, p.Denotes text n) ↔ p.scope.Admits text := by
  constructor
  · rintro ⟨n, denotes⟩
    cases denotes with
    | number _ shaped value fits => exact .inl ⟨shaped, n, value, fits⟩
    | declaration rank name declared => exact .inr ⟨name, .inl ⟨rank, declared⟩⟩
    | label offset name _ placed => exact .inr ⟨name, .inr ⟨offset, placed⟩⟩
  · rintro (⟨shaped, n, value, fits⟩ | ⟨name, known⟩)
    · exact ⟨n, .number n shaped value fits⟩
    · by_cases declared : ∃ rank, p.scope.DeclaresAt rank text
      · obtain ⟨rank, declared⟩ := declared
        exact ⟨_, .declaration rank name declared⟩
      · obtain ⟨offset, placed⟩ := known.resolve_left declared
        exact ⟨_, .label offset name (not_exists.mp declared) placed⟩

theorem Placement.resolve_iff (p : Placement) (declares : p.scope.Declares p.vars) (text : String)
    (n : Nat) : p.resolve text = .ok n ↔ p.Denotes text n := by
  constructor
  · intro resolved
    rcases p.resolve_cases text n resolved with
      ⟨base, digits, shape, number, fits⟩ | ⟨shape, rank, ranked, rfl⟩ |
        ⟨shape, unranked, offset, placed, rfl⟩
    · have shaped : numberShaped text = true := by
        unfold numberShaped
        rw [← numeral?_isSome, shape]
        rfl
      have value : literalValue? text = some n := by
        unfold literalValue?
        rw [shape]
        exact number
      exact .number n shaped value fits
    · have name := (numeral?_eq_none_iff text).mp shape
      exact .declaration rank name ((declares.idxOf?_iff text rank).mp ranked)
    · have name := (numeral?_eq_none_iff text).mp shape
      exact .label offset name ((declares.idxOf?_eq_none_iff text).mp unranked) placed
  · intro denotes
    unfold Placement.resolve Placement.frameAddress? Placement.labelAddress?
    cases denotes with
    | number _ shaped value fits =>
      unfold literalValue? at value
      cases shape : numeral? text.toList with
      | none =>
        rw [shape] at value
        cases value
      | some reading =>
        rw [shape, Option.bind_some] at value
        obtain ⟨base, digits⟩ := reading
        dsimp only at value ⊢
        rw [value, Option.filter_some, if_pos (decide_eq_true fits)]
    | declaration rank name declared =>
      rw [(numeral?_eq_none_iff text).mpr name, (declares.idxOf?_iff text rank).mpr declared]
      rfl
    | label offset name undeclared placed =>
      rw [(numeral?_eq_none_iff text).mpr name,
        (declares.idxOf?_eq_none_iff text).mpr undeclared, placed]
      rfl

/-- A number that an operand writes fits into a literal, and an address is not behind the end of the
scope. -/
theorem Placement.Denotes.lt_or_le {p : Placement} {text : String} {n : Nat}
    (denotes : p.Denotes text n) (declares : p.scope.Declares p.vars) (first : 1 ≤ p.base) :
    n < literalBound ∨ n ≤ p.base + p.size := by
  cases denotes with
  | number _ shaped value fits => exact .inl fits
  | declaration rank name declared =>
    obtain ⟨t, found, _⟩ := declared
    have inside : rank < p.size := (List.getElem?_eq_some_iff.mp found).1
    exact .inr (by omega)
  | label offset name undeclared placed =>
    have inside : offset ≤ p.size := (declares.labels text offset placed).2
    exact .inr (by omega)

namespace Layout

/-- The number in the literal field of the word of an operation with arguments. -/
inductive Carries (l : Layout) (p : Placement) (args : List String) : Operation → Nat → Prop
  | nothing (operation : Operation) (free : operation.takesOperand = false) (bare : args = []) :
      Carries l p args operation 0
  | callee (function : String) (given : List String) (q : Placement)
      (call : args = function :: given) (member : q ∈ l.functions)
      (named : q.scope.name = function) (arity : q.scope.params.length = given.length) :
      Carries l p args .call q.base
  | target (name : String) (offset : Nat) (jump : args = [name])
      (placed : p.scope.label? name = some offset) : Carries l p args .goto (p.base + offset)
  | operand (operation : Operation) (taken : operation.takesOperand = true)
      (notCall : operation ≠ .call) (notGoto : operation ≠ .goto) (text : String) (n : Nat)
      (single : args = [text]) (denotes : p.Denotes text n) : Carries l p args operation n

/-- Whether the arguments of an operation are as they must be: none where it takes no operand; for a
call a function of the program and one argument for each of its parameters; for a jump a label of
the scope; else one operand. -/
def Accepts (l : Layout) (p : Placement) (args : List String) (operation : Operation) : Prop :=
  if operation.takesOperand = false then args = []
  else if operation = .call then
    ∃ function given, args = function :: given ∧ ∃ q ∈ l.functions, q.scope.name = function ∧
      given.length = q.scope.params.length
  else if operation = .goto then
    ∃ name, args = [name] ∧ ∃ offset, p.scope.label? name = some offset
  else ∃ text, args = [text] ∧ p.scope.Admits text

theorem carries_iff_accepts (l : Layout) (p : Placement) (args : List String)
    (operation : Operation) :
    (∃ n, l.Carries p args operation n) ↔ l.Accepts p args operation := by
  unfold Accepts
  constructor
  · rintro ⟨n, carries⟩
    cases carries with
    | nothing _ free bare =>
      rw [if_pos free]
      exact bare
    | callee function given q call member named arity =>
      exact ⟨function, given, call, q, member, named, arity.symm⟩
    | target name offset jump placed => exact ⟨name, jump, offset, placed⟩
    | operand _ taken notCall notGoto text _ single denotes =>
      rw [if_neg (ne_false_of_eq_true taken), if_neg notCall, if_neg notGoto]
      exact ⟨text, single, (p.denotes_iff_admits text).mp ⟨n, denotes⟩⟩
  · split
    · rename_i free
      exact fun bare => ⟨0, .nothing operation free bare⟩
    · rename_i taken
      split
      · rename_i isCall
        rintro ⟨function, given, call, q, member, named, arity⟩
        exact ⟨q.base, isCall ▸ .callee function given q call member named arity.symm⟩
      · rename_i notCall
        split
        · rename_i isGoto
          rintro ⟨name, jump, offset, placed⟩
          subst isGoto
          exact ⟨_, .target name offset jump placed⟩
        · rename_i notGoto
          rintro ⟨text, single, admits⟩
          obtain ⟨n, denotes⟩ := (p.denotes_iff_admits text).mpr admits
          exact ⟨n, .operand operation (by simpa using taken) notCall notGoto text n single denotes⟩

/-- A word is that of a mnemonic with arguments in a scope: it has the code of the instruction set,
and the low 24 bits of the number that the arguments stand for. -/
def Encodes (l : Layout) (p : Placement) (mnemonic : String) (args : List String) (w : Word) :
    Prop :=
  ∃ i n, Instruction.find? mnemonic = some i ∧ w = ⟨i.code, BitVec.ofNat 24 n⟩ ∧
    l.Carries p args i.operation n

theorem encodes_iff_accepts (l : Layout) (p : Placement) (mnemonic : String) (args : List String) :
    (∃ w, l.Encodes p mnemonic args w) ↔
      ∃ i, Instruction.find? mnemonic = some i ∧ l.Accepts p args i.operation := by
  constructor
  · rintro ⟨_, i, n, known, _, carries⟩
    exact ⟨i, known, (l.carries_iff_accepts p args i.operation).mp ⟨n, carries⟩⟩
  · rintro ⟨i, known, accepts⟩
    obtain ⟨n, carries⟩ := (l.carries_iff_accepts p args i.operation).mpr accepts
    exact ⟨_, i, n, known, rfl, carries⟩

/-- A layout whose functions have names of their own, and whose scopes begin with the declarations
of their variables. -/
structure Named (l : Layout) : Prop where
  functions : (l.functions.map fun q => q.scope.name).Nodup
  declares : ∀ p ∈ l.placements, p.scope.Declares p.vars

theorem Named.function?_iff {l : Layout} (named : l.Named) (name : String) (q : Placement) :
    l.function? name = some q ↔ q ∈ l.functions ∧ q.scope.name = name := by
  constructor
  · intro found
    have same : (q.scope.name == name) = true :=
      List.find?_some (p := fun r : Placement => r.scope.name == name) found
    exact ⟨List.mem_of_find?_eq_some found, eq_of_beq same⟩
  · rintro ⟨member, rfl⟩
    exact find?_of_nodup (fun r : Placement => r.scope.name) l.functions q named.functions member

theorem Named.carries_of_refers {l : Layout} (named : l.Named) (p : Placement)
    (member : p ∈ l.placements) (t : Token) (operation : Operation) (n : Nat)
    (refers : l.Refers p t operation n) : l.Carries p t.args operation n := by
  cases refers with
  | nothing _ free bare => exact .nothing operation free bare
  | callee function given q args found arity =>
    obtain ⟨inside, name⟩ := (named.function?_iff function q).mp found
    exact .callee function given q args inside name arity
  | label name offset args found => exact .target name offset args found
  | operand _ taken notCall notGoto text _ args resolved =>
    have denotes := (p.resolve_iff (named.declares p member) text n).mp resolved
    exact .operand operation taken notCall notGoto text n args denotes

/-- A token is encoded and linked exactly to the word of its mnemonic with its arguments. -/
theorem Named.encode_iff {l : Layout} (named : l.Named) (p : Placement)
    (member : p ∈ l.placements) (t : Token) (w : Word) :
    (∃ e, p.encode t = .ok e ∧ l.link e = .ok w) ↔ l.Encodes p t.mnemonic t.args w := by
  constructor
  · rintro ⟨e, encoded, linked⟩
    obtain ⟨i, n, known, rfl, refers⟩ := l.refers_of_encode p t e w encoded linked
    exact ⟨i, n, known, rfl, named.carries_of_refers p member t i.operation n refers⟩
  · rintro ⟨⟨mnemonic, code, operation⟩, n, known, rfl, carries⟩
    unfold Placement.encode
    rw [known]
    cases carries with
    | nothing _ free bare =>
      refine ⟨(code, .value 0), ?_, rfl⟩
      simp [free, bare]
    | callee function given q call inside name arity =>
      refine ⟨(code, .callee t function given.length), ?_, ?_⟩
      · simp [Operation.takesOperand, call]
      · unfold Layout.link
        simp [(named.function?_iff function q).mpr ⟨inside, name⟩, arity]
    | target name offset jump placed =>
      refine ⟨(code, .value (p.base + offset)), ?_, rfl⟩
      simp [Operation.takesOperand, jump, Placement.resolveJump, Placement.labelAddress?, placed]
    | operand _ taken notCall notGoto text _ single denotes =>
      have resolved := (p.resolve_iff (named.declares p member) text n).mpr denotes
      refine ⟨(code, .value n), ?_, rfl⟩
      simp [taken, notCall, notGoto, single, resolved]

end Layout

end Accumulator
