import Accumulator.Proofs.Assembled.Variables
import Accumulator.Proofs.Program.WellNested

set_option autoImplicit false

/-!
Where the words of a line are. The instructions of a scope that are no declarations have one block of
words each, so the address of a block is found by counting the words of the lines before it.
-/

namespace Accumulator

open Source Machine

/-- The number of words of an instruction that is no declaration. -/
def Source.Token.width (t : Token) : Nat :=
  if t.mnemonic = "CALL" then 2 * (t.args.length - 1) + 1 else 1

/-- The address behind the declarations of a scope and the words of the first lines. -/
def Placement.addressAfter (p : Placement) (before : List Token) : Nat :=
  p.base + p.vars.length + ((before.filter Token.executes).map Token.width).sum

/-- A number of words from an address on. -/
def wordsAt (words : List Word) (address count : Nat) : List Word :=
  (words.drop (address - 1)).take count

theorem wordsAt_getElem? (words : List Word) (address count i : Nat) (inside : i < count) :
    (wordsAt words address count)[i]? = words[address - 1 + i]? := by
  unfold wordsAt
  rw [List.getElem?_take_of_lt inside, List.getElem?_drop]

/-- The code has words from an address on. -/
def Machine.Code.Contains (code : Code) (address : Nat) (words : List Word) : Prop :=
  ∀ i w, words[i]? = some w → Code.fetch? code (address + i) = some w

theorem Machine.Code.Contains.head {code : Code} {address : Nat} {w : Word} {words : List Word}
    (contains : Code.Contains code address (w :: words)) : Code.fetch? code address = some w :=
  contains 0 w rfl

theorem Machine.Code.Contains.append {code : Code} {address : Nat} {front back : List Word}
    (contains : Code.Contains code address (front ++ back)) :
    Code.Contains code address front ∧ Code.Contains code (address + front.length) back := by
  constructor
  · intro i w found
    apply contains i w
    rw [List.getElem?_append_left (List.getElem?_eq_some_iff.mp found).1]
    exact found
  · intro i w found
    rw [Nat.add_assoc]
    apply contains (front.length + i) w
    rw [List.getElem?_append_right (by omega), Nat.add_sub_cancel_left]
    exact found

/-- The words in a part of a scope are those at the address of the part. -/
theorem wordsAt_of_part {p : Placement} {words front part back : List Word} (first : 1 ≤ p.base)
    (parts : p.wordsIn words = front ++ (part ++ back)) :
    wordsAt words (p.base + front.length) part.length = part ∧
      front.length + part.length ≤ p.size := by
  have size : (p.wordsIn words).length ≤ p.size := by
    unfold Placement.wordsIn
    rw [List.length_take]
    omega
  rw [parts, List.length_append, List.length_append] at size
  have start : p.base + front.length - 1 = p.base - 1 + front.length := by omega
  have cut : ((p.wordsIn words).drop front.length).take part.length = part := by
    rw [parts, List.drop_left, List.take_left]
  unfold Placement.wordsIn at cut
  rw [List.drop_take, List.take_take, Nat.min_eq_left (by omega), List.drop_drop, ← start] at cut
  exact ⟨cut, by omega⟩

theorem Layout.length_of_blocks {l : Layout} {p : Placement} {frame : Nat} {lines : List Token}
    {blocks : List (List Word)} (emitted : List.Forall₂ (l.Emits p frame) lines blocks) :
    blocks.flatten.length = (lines.map Token.width).sum := by
  induction emitted with
  | nil => rfl
  | cons here _ ih =>
    rw [List.flatten_cons, List.length_append, List.map_cons, List.sum_cons, ih, here.length]
    rfl

/-- A text and what is assembled from it: its tokens are divided into lines and functions, and these
make up the program that is laid out. -/
structure Assembly.Comprises (a : Assembly) (text : List Char) (tokens main : List Token)
    (functions : List FunctionText) : Prop where
  expanded : (Token.scan text >>= Source.expand) = .ok tokens
  nested : WellNested tokens main functions
  assembles : a.layout.Assembles (Program.ofParts main functions) a.words
  named : a.layout.Named

/-- A scope at its place, with its lines. -/
inductive Assembly.Scopes (a : Assembly) (main : List Token) (functions : List FunctionText) :
    Placement → List Token → Prop
  | main : Scopes a main functions a.layout.main main
  | function (f : FunctionText) (p : Placement) (listed : f ∈ functions)
      (placed : p ∈ a.layout.functions) (shape : p.scope = f.scope) :
      Scopes a main functions p f.allLines

theorem Assembly.comprises {text : List Char} {a : Assembly}
    (compiled : Assembly.ofSource text = .ok a) {tokens main : List Token}
    {functions : List FunctionText}
    (expanded : (Token.scan text >>= Source.expand) = .ok tokens)
    (divides : Divides tokens main functions) : a.Comprises text tokens main functions := by
  obtain ⟨program, source, placed, _⟩ := Assembly.ofSource_eq_ok.mp compiled
  have assembles := Assembly.assembles compiled source
  have parsed : Program.ofTokens tokens = .ok program := by
    obtain ⟨others, expands, parsed⟩ := Program.ofSource_eq_ok.mp source
    rw [expanded] at expands
    cases expands
    exact parsed
  obtain ⟨main', functions', nested, rfl⟩ := Program.wellNested parsed
  have same := (divides_iff _ _ _).mp nested.divides
  rw [(divides_iff _ _ _).mp divides] at same
  cases same
  exact ⟨expanded, nested, assembles, Layout.named_of_ofProgram parsed placed⟩

section

variable {a : Assembly} {text : List Char} {tokens main : List Token}
  {functions : List FunctionText} {p : Placement} {lines : List Token}

theorem Assembly.Scopes.placement (scope : a.Scopes main functions p lines) :
    p ∈ a.layout.placements := by
  cases scope with
  | main => exact List.mem_cons_self
  | function f p _ placed _ => exact List.mem_cons_of_mem _ placed

namespace Assembly.Comprises

theorem distinct (comprises : a.Comprises text tokens main functions) :
    ∀ p ∈ a.layout.placements, (p.scope.labels.map Prod.fst).Nodup :=
  fun p member => (Program.distinct comprises.nested.program).2 p.scope
    (comprises.assembles.places.scope_mem p member)

theorem holds (comprises : a.Comprises text tokens main functions)
    (scope : a.Scopes main functions p lines) : p.Holds lines := by
  obtain ⟨mainLines, functionLines⟩ := comprises.nested.divides.inBody
  cases scope with
  | main =>
    exact ⟨fun t line => (mainLines t line).2, mainName, none, [], none,
      comprises.assembles.places.main⟩
  | function f p listed _ shape =>
    refine ⟨?_, f.name, some f.header, f.params, some f.terminator, shape⟩
    exact f.inBody_allLines fun t line => (functionLines f listed t line).2

/-- The labels of a scope have names. -/
theorem label_identifier (comprises : a.Comprises text tokens main functions)
    (scope : a.Scopes main functions p lines) {name : String} {offset : Nat}
    (found : p.scope.label? name = some offset) : Text.isIdentifier name = true :=
  comprises.nested.label_identifier comprises.expanded
    (comprises.assembles.places.scope_mem p scope.placement) found

/-- The declarations of a scope are as many as its variables. -/
theorem declarations_length (comprises : a.Comprises text tokens main functions)
    (scope : a.Scopes main functions p lines) :
    (lines.filter Token.declares).length = p.vars.length := by
  have declares := comprises.named.declares p scope.placement
  rw [← declares.names.length_eq, (comprises.holds scope).declarations declares]

theorem arranges (comprises : a.Comprises text tokens main functions)
    (scope : a.Scopes main functions p lines) :
    ∃ declarations blocks, declarations.length = p.vars.length ∧
      a.layout.Arranges p lines (p.wordsIn a.words) declarations blocks := by
  obtain ⟨inside, name, header, params, terminator, shape⟩ := comprises.holds scope
  obtain ⟨declarations, blocks, arranges⟩ := Layout.arranges_of_encodes inside shape
    (comprises.named.declares p scope.placement) (comprises.distinct p scope.placement)
    (comprises.assembles.encodes comprises.named p scope.placement)
  refine ⟨declarations, blocks, ?_, arranges⟩
  rw [← comprises.declarations_length scope, arranges.declared.length_eq]

/-- The words of an instruction are those at its address. -/
theorem block (comprises : a.Comprises text tokens main functions)
    (scope : a.Scopes main functions p lines) {before after : List Token} {t : Token}
    (here : lines = before ++ t :: after) (executes : t.executes = true) :
    a.layout.Emits p p.vars.length t (wordsAt a.words (p.addressAfter before) t.width) ∧
      p.addressAfter before + t.width ≤ p.base + p.size := by
  obtain ⟨declarations, blocks, frame, arranges⟩ := comprises.arranges scope
  have split : lines.filter Token.executes =
      before.filter Token.executes ++ t :: after.filter Token.executes := by
    rw [here, List.filter_append, List.filter_cons, if_pos executes]
  have emitted := arranges.emitted
  rw [split, frame] at emitted
  obtain ⟨front, rest, rfl, earlier, later⟩ := forall₂_append_left _ _ _ emitted
  obtain ⟨block, back, emits, _, rfl⟩ := List.forall₂_cons_left_iff.mp later
  have first := (comprises.assembles.places.bounds p scope.placement).1
  have parts : p.wordsIn a.words = (declarations ++ front.flatten) ++ (block ++ back.flatten) := by
    rw [arranges.words, List.flatten_append, List.flatten_cons, List.append_assoc]
  obtain ⟨words, within⟩ := wordsAt_of_part first parts
  have counted : p.base + (declarations ++ front.flatten).length = p.addressAfter before := by
    rw [List.length_append, Layout.length_of_blocks earlier, frame, ← Nat.add_assoc]
    rfl
  have width : block.length = t.width := emits.length
  rw [counted, width] at words
  rw [words]
  exact ⟨emits, by omega⟩

/-- The parameters of a function are its first variables. -/
theorem params_first (comprises : a.Comprises text tokens main functions) {q : Placement}
    (placed : q ∈ a.layout.functions) {i : Nat} {param : String}
    (found : q.scope.params[i]? = some param) : q.vars[i]? = some param := by
  have places := comprises.assembles.places
  have shape : q.scope ∈ functions.map FunctionText.scope := by
    have scopes : a.layout.functions.map Placement.scope = functions.map FunctionText.scope :=
      places.functions
    rw [← scopes]
    exact List.mem_map_of_mem placed
  obtain ⟨f, listed, shape⟩ := List.mem_map.mp shape
  have scope : a.Scopes main functions q f.allLines := .function f q listed placed shape.symm
  have declares := comprises.named.declares q scope.placement
  have order : q.vars = f.params ++ declaredNames f.lines := by
    rw [declares.vars_eq, (comprises.holds scope).declarations declares,
      ← f.declaredNames_allLines]
    rfl
  rw [← shape] at found
  change f.params[i]? = some param at found
  rw [order, List.getElem?_append_left (List.getElem?_eq_some_iff.mp found).1]
  exact found

/-- Each parameter of a function has the address of its place among the parameters. -/
theorem parameter_address (comprises : a.Comprises text tokens main functions) {q : Placement}
    (placed : q ∈ a.layout.functions) {i : Nat} (inside : i < q.scope.params.length) :
    ∃ param, q.scope.params[i]? = some param ∧ q.frameAddress? param = some (i + 1) := by
  have found : q.scope.params[i]? = some q.scope.params[i] := List.getElem?_eq_getElem inside
  have declares := comprises.named.declares q (List.mem_cons_of_mem _ placed)
  exact ⟨_, found,
    Placement.frameAddress?_of_nodup declares.nodup (comprises.params_first placed found)⟩

/-- A function with a parameter begins at one of the words. -/
theorem base_le_size (comprises : a.Comprises text tokens main functions) {q : Placement}
    (placed : q ∈ a.layout.functions) (some : 0 < q.scope.params.length) :
    q.base ≤ a.layout.size := by
  have member := List.mem_cons_of_mem a.layout.main placed
  have first := comprises.params_first placed (List.getElem?_eq_getElem some)
  have positive : 0 < q.vars.length := (List.getElem?_eq_some_iff.mp first).1
  have declared : q.vars.length ≤ q.size := (comprises.named.declares q member).fits
  have ends := (comprises.assembles.places.bounds q member).2
  omega

/-- The processor finds the words of an instruction from its address on. -/
theorem contains_block (comprises : a.Comprises text tokens main functions)
    (scope : a.Scopes main functions p lines) (before : List Token) (count : Nat) :
    Code.Contains a.words.toArray (p.addressAfter before)
      (wordsAt a.words (p.addressAfter before) count) := by
  intro i w found
  have inside : i < count := by
    have short := (List.getElem?_eq_some_iff.mp found).1
    unfold wordsAt at short
    rw [List.length_take] at short
    omega
  have first := (comprises.assembles.places.bounds p scope.placement).1
  have own : p.base ≤ p.addressAfter before := by
    unfold Placement.addressAfter
    omega
  rw [wordsAt_getElem? _ _ _ _ inside] at found
  rw [fetch?_eq_some_iff]
  refine ⟨by omega, ?_⟩
  rw [← found]
  congr 1
  omega

end Assembly.Comprises

end

end Accumulator
