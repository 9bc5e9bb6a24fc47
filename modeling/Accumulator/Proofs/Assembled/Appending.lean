import Accumulator.Proofs.Program.Enclosed
import Accumulator.Proofs.Source.Joined

set_option autoImplicit false

/-!
Functions behind a program. The text of a program with more functions below it has the same words and
then those of the added functions, and all that had a place keeps it.
-/

namespace Accumulator

open Source

/-- What corresponds to the beginning of a list is the beginning of what corresponds to all of it. -/
theorem forall₂_prefix {α β : Type} {R S : α → β → Prop} (same : ∀ x y z, R x y → S x z → y = z)
    {xs xs' : List α} {ys ys' : List β} (first : List.Forall₂ R xs ys)
    (second : List.Forall₂ S xs' ys') (before : xs <+: xs') : ys <+: ys' := by
  induction first generalizing xs' ys' with
  | nil => exact List.nil_prefix
  | @cons x y xs ys here _ ih =>
    obtain ⟨more, rfl⟩ := before
    cases second with
    | cons also later =>
      obtain rfl := same _ _ _ here also
      exact List.cons_prefix_cons.mpr ⟨rfl, ih later (List.prefix_append xs more)⟩

theorem placeFrom_prefix {base : Nat} {scopes more : List Scope} {ps all : List Placement}
    (placed : placeFrom base scopes = .ok ps) (grown : placeFrom base (scopes ++ more) = .ok all) :
    ps <+: all := by
  induction scopes generalizing base ps all with
  | nil =>
    cases placed
    exact List.nil_prefix
  | cons s rest ih =>
    rw [List.cons_append] at grown
    unfold placeFrom at placed grown
    simp only [bind_eq_ok, pure_eq_ok] at placed grown
    obtain ⟨vars, declared, others, later, rfl⟩ := placed
    obtain ⟨vars', declared', others', later', rfl⟩ := grown
    rw [declared] at declared'
    cases declared'
    exact List.cons_prefix_cons.mpr ⟨rfl, ih later later'⟩

namespace Layout

/-- A layout with more functions behind those of another one. -/
structure Extends (l' l : Layout) : Prop where
  main : l'.main = l.main
  functions : l.functions <+: l'.functions

theorem extends_of_ofProgram {main : Scope} {functions more : List Scope} {l l' : Layout}
    (placed : ofProgram ⟨main, functions⟩ = .ok l)
    (grown : ofProgram ⟨main, functions ++ more⟩ = .ok l') : l'.Extends l := by
  unfold ofProgram at placed grown
  simp only [bind_eq_ok, pure_eq_ok] at placed grown
  obtain ⟨vars, declared, ps, behind, rfl⟩ := placed
  obtain ⟨vars', declared', all, behind', rfl⟩ := grown
  rw [declared] at declared'
  cases declared'
  exact ⟨rfl, placeFrom_prefix behind behind'⟩

variable {l l' : Layout}

theorem Extends.placements (larger : l'.Extends l) : l.placements <+: l'.placements :=
  List.cons_prefix_cons.mpr ⟨larger.main.symm, larger.functions⟩

/-- A name stands for the same function. -/
theorem Extends.function? (larger : l'.Extends l) {name : String} {p : Placement}
    (found : l.function? name = some p) : l'.function? name = some p :=
  larger.functions.find?_eq_some found

theorem Extends.link (larger : l'.Extends l) {e : BitVec 8 × Reference} {w : Word}
    (linked : l.link e = .ok w) : l'.link e = .ok w := by
  obtain ⟨code, reference⟩ := e
  cases reference with
  | value n => exact linked
  | callee call function given =>
    obtain ⟨p, found, _⟩ := l.link_callee_eq_ok code call function given w linked
    unfold Layout.link at linked ⊢
    dsimp only at linked ⊢
    rw [larger.function? found]
    rw [found] at linked
    exact linked

theorem Extends.code (larger : l'.Extends l) {words words' : List Word}
    (coded : l.code = .ok words) (grown : l'.code = .ok words') : words <+: words' := by
  obtain ⟨main, functions, first, rest, linked⟩ := code_eq_ok coded
  obtain ⟨main', functions', first', rest', linked'⟩ := code_eq_ok grown
  rw [larger.main, first] at first'
  cases first'
  have encoded : functions <+: functions' := by
    apply forall₂_prefix _ rest rest' larger.functions
    intro p es es' here also
    rw [here] at also
    exact Except.ok.inj also
  apply forall₂_prefix _ linked linked'
  · obtain ⟨added, rfl⟩ := encoded
    rw [List.flatten_append]
    exact ⟨added.flatten, by simp⟩
  · intro e w w' here also
    rw [larger.link here] at also
    exact Except.ok.inj also

end Layout

/-- A program with enclosed tokens behind its own has the same scopes, and more functions. -/
theorem Tokens.Blocks.program {upper lower : List Token} {program program' : Program}
    (blocks : Tokens.Blocks lower) (parsed : Program.ofTokens upper = .ok program)
    (grown : Program.ofTokens (upper ++ lower) = .ok program') :
    ∃ added, program' = ⟨program.main, program.functions ++ added⟩ := by
  obtain ⟨main, functions, nested, rfl⟩ := Program.wellNested parsed
  obtain ⟨main', functions', nested', rfl⟩ := Program.wellNested grown
  obtain ⟨rfl, added, rfl⟩ := blocks.divides nested.divides nested'.divides
  refine ⟨added.map FunctionText.scope, ?_⟩
  unfold Program.ofParts
  rw [List.map_append]

/-- Let a text be assembled, alone and with another text below it. If each line of the other text that
is no directive belongs to a function of it, then the words begin with those of the first text alone.
The scopes of the first text come first and are the same in all: they have the same bases, sizes,
variables and labels, and a name of a function stands for the one that it stood for. -/
theorem appended_functions_move_nothing (above below : List Char) (a b : Assembly)
    (assembled : Assembly.ofSource above = .ok a)
    (grown : Assembly.ofSource (above ++ '\n' :: below) = .ok b) :
    ∃ tokens, Token.scan below = .ok tokens ∧
      (Tokens.Enclosed tokens →
        a.words <+: b.words ∧ a.layout.placements <+: b.layout.placements ∧
          (∀ p ∈ a.layout.placements, ∃ q ∈ b.layout.placements, q.scope.name = p.scope.name ∧
            q.base = p.base ∧ q.size = p.size ∧ q.vars = p.vars ∧
            ∀ name, q.labelAddress? name = p.labelAddress? name) ∧
          ∀ name p, a.layout.function? name = some p → b.layout.function? name = some p) := by
  obtain ⟨program, read, placed, coded⟩ := Assembly.ofSource_eq_ok.mp assembled
  obtain ⟨program', read', placed', coded'⟩ := Assembly.ofSource_eq_ok.mp grown
  obtain ⟨expanded, whole, parsed⟩ := Program.ofSource_eq_ok.mp read
  obtain ⟨expanded', whole', parsed'⟩ := Program.ofSource_eq_ok.mp read'
  obtain ⟨tokens, scanned, expands⟩ := bind_eq_ok.mp whole
  obtain ⟨tokens', scanned', expands'⟩ := bind_eq_ok.mp whole'
  obtain ⟨first, second, move, upper, lower, rfl⟩ := Token.scan_joined_eq_ok scanned'
  refine ⟨second, lower, fun enclosed => ?_⟩
  rw [scanned] at upper
  cases upper
  obtain ⟨front, back, expandsFront, expandsBack, rfl⟩ := Constants.expand_append_eq_ok.mp expands'
  have same : front = expanded := Except.ok.inj (expandsFront.symm.trans expands)
  rw [same] at parsed'
  have blocks := (enclosed.blocks.moved move).expand expandsBack
  obtain ⟨added, rfl⟩ := blocks.program parsed parsed'
  have larger := Layout.extends_of_ofProgram placed placed'
  refine ⟨larger.code coded coded', larger.placements, ?_, fun name p => larger.function?⟩
  intro p member
  exact ⟨p, larger.placements.subset member, rfl, rfl, rfl, rfl, fun _ => rfl⟩

/-- A call, the function that is called, and a carriage return at the end. -/
def doubling : List Char :=
  ['\n'].intercalate (["VAR count", "MOVLW 4", "MOVWF count", "CALL twice count", "more",
    "GOTO more", "FN twice n", "MOVFW n", "ADD,W n", "RET", "END\r"].map String.toList)

/-- A constant, and functions with the names of a variable and of a label in the text above. One of them
calls the function of that text. -/
def furtherFunctions : List Char :=
  ['\n'].intercalate (["FN count more n", "#define n 3", "VAR x", "LABEL twice", "CALL twice more",
    "GOTO twice", "END", "FN more", "RETLW n", "END"].map String.toList)

/-- The words of the call and of the function come first, and the call goes to the same address. -/
theorem doubling_keeps_words :
    ∃ a b, Assembly.ofSource doubling = .ok a ∧
      Assembly.ofSource (doubling ++ '\n' :: furtherFunctions) = .ok b ∧
      a.words.length = 12 ∧ b.words.length = 20 ∧ a.words <+: b.words ∧
      ∃ p, a.layout.function? "twice" = some p ∧ p.base = 9 ∧
        b.layout.function? "twice" = some p := by
  have facts : ∃ a, Assembly.ofSource doubling = .ok a ∧ a.words.length = 12 ∧
      ∃ b, Assembly.ofSource (doubling ++ '\n' :: furtherFunctions) = .ok b ∧ b.words.length = 20 ∧
        (a.layout.function? "twice").map Placement.base = some 9 := by
    decide +kernel
  have enclosed : ∃ tokens, Token.scan furtherFunctions = .ok tokens ∧ Tokens.Enclosed tokens := by
    decide +kernel
  obtain ⟨a, assembled, size, b, grown, larger, base⟩ := facts
  obtain ⟨tokens, scanned, inside⟩ := enclosed
  obtain ⟨tokens', scanned', whole⟩ := appended_functions_move_nothing doubling furtherFunctions a b
    assembled grown
  rw [scanned] at scanned'
  cases scanned'
  obtain ⟨words, _, _, functions⟩ := whole inside
  obtain ⟨p, found, here⟩ := Option.map_eq_some_iff.mp base
  exact ⟨a, b, assembled, grown, size, larger, words, p, found, here, functions "twice" p found⟩

end Accumulator
