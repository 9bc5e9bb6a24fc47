import Accumulator.Proofs.Program.Orderly
import Accumulator.Proofs.Source.Expansion
import Accumulator.Proofs.Source.Moved
import Accumulator.Proofs.Source.Origin

set_option autoImplicit false

/-!
Tokens that all belong to functions, apart from directives. Behind the tokens of a program they add
functions to it and no line of the main scope.
-/

namespace Accumulator

open Source

namespace Tokens

/-- A function stands from one place to another: its header at the first, its end at the last, and
neither a header nor an end between them. -/
structure Block (tokens : List Token) (first last : Nat) : Prop where
  opens : tokens[first]?.any Token.isHeader = true
  closes : tokens[last]?.any Token.isTerminator = true
  between : ∀ i < last, first < i → ∀ t ∈ tokens[i]?, t.isHeader = false ∧ t.isTerminator = false

/-- Each token that is no directive belongs to a function of these tokens. -/
def Enclosed (tokens : List Token) : Prop :=
  ∀ i < tokens.length, ∀ t ∈ tokens[i]?, t.kind ≠ .directive →
    ∃ first ≤ i, ∃ last < tokens.length, i ≤ last ∧ Block tokens first last

instance (tokens : List Token) (first last : Nat) : Decidable (Block tokens first last) :=
  decidable_of_iff (_ ∧ _ ∧ _)
    ⟨fun ⟨opens, closes, between⟩ => ⟨opens, closes, between⟩, fun block =>
      ⟨block.opens, block.closes, block.between⟩⟩

instance (tokens : List Token) : Decidable (Enclosed tokens) :=
  inferInstanceAs (Decidable (∀ i < tokens.length, ∀ t ∈ tokens[i]?, _ → _))

/-- Functions one after the other, and directives anywhere. -/
inductive Blocks : List Token → Prop
  | nil : Blocks []
  | directive (t : Token) (rest : List Token) (directive : t.kind = .directive)
      (blocks : Blocks rest) : Blocks (t :: rest)
  | function (f : FunctionText) (rest : List Token) (opens : f.header.isHeader = true)
      (inside : ∀ t ∈ f.lines, t.isTerminator = false) (closes : f.terminator.isTerminator = true)
      (blocks : Blocks rest) : Blocks (f.header :: f.lines ++ f.terminator :: rest)

section Places

variable {tokens : List Token} {first last : Nat}

/-- A function does not begin before another one that begins at the first place ends. -/
theorem Block.behind {stop : Nat} (block : Block tokens 0 stop) (other : Block tokens first last)
    (low : first ≤ stop) : last ≤ stop := by
  obtain ⟨header, placed, opens⟩ := (Option.any_eq_true _ _).mp other.opens
  obtain ⟨terminator, found, closes⟩ := (Option.any_eq_true _ _).mp block.closes
  by_contra beyond
  have next : first < stop := by
    apply Nat.lt_of_le_of_ne low
    rintro rfl
    rw [placed] at found
    cases found
    rw [Token.not_isTerminator opens] at closes
    cases closes
  have inner := (other.between stop (Nat.lt_of_not_le beyond) next terminator found).2
  rw [closes] at inner
  cases inner

theorem Block.drop {n : Nat} (block : Block tokens first last) (low : n ≤ first)
    (high : n ≤ last) : Block (tokens.drop n) (first - n) (last - n) := by
  refine ⟨?_, ?_, ?_⟩
  · rw [List.getElem?_drop, Nat.add_sub_cancel' low]
    exact block.opens
  · rw [List.getElem?_drop, Nat.add_sub_cancel' high]
    exact block.closes
  · intro i before after t token
    rw [List.getElem?_drop] at token
    exact block.between (n + i) (by omega) (by omega) t token

/-- Behind a place that no function goes across, the tokens are enclosed as well. -/
theorem Enclosed.drop (enclosed : Enclosed tokens) (n : Nat)
    (apart : ∀ first last, Block tokens first last → n ≤ last → n ≤ first) :
    Enclosed (tokens.drop n) := by
  intro i inside t found other
  rw [List.length_drop] at inside ⊢
  rw [List.getElem?_drop] at found
  obtain ⟨first, low, last, within, high, block⟩ := enclosed (n + i) (by omega) t found other
  have below := apart first last block (by omega)
  exact ⟨first - n, by omega, last - n, by omega, by omega, block.drop below (by omega)⟩

theorem Enclosed.blocks (enclosed : Enclosed tokens) : Blocks tokens := by
  induction size : tokens.length using Nat.strong_induction_on generalizing tokens with
  | _ size ih =>
    cases tokens with
    | nil => exact .nil
    | cons t rest =>
      rw [List.length_cons] at size
      by_cases directive : t.kind = .directive
      · have others : Enclosed rest := by
          apply enclosed.drop 1
          intro first last block _
          obtain ⟨header, placed, opens⟩ := (Option.any_eq_true _ _).mp block.opens
          cases first with
          | succ first => exact Nat.succ_le_succ (Nat.zero_le first)
          | zero =>
            cases placed
            rw [Token.isHeader_iff.mp opens] at directive
            cases directive
        exact .directive t rest directive (ih rest.length (by omega) others rfl)
      · obtain ⟨first, low, last, _, _, block⟩ := enclosed 0 (Nat.succ_pos _) t rfl directive
        obtain rfl := Nat.le_zero.mp low
        obtain ⟨header, same, opens⟩ := (Option.any_eq_true _ _).mp block.opens
        obtain rfl := Option.some.inj same
        obtain ⟨terminator, found, closes⟩ := (Option.any_eq_true _ _).mp block.closes
        have others : Enclosed ((t :: rest).drop (last + 1)) := by
          apply enclosed.drop
          intro first other block' beyond
          by_contra before
          have ends := block.behind block' (by omega)
          omega
        cases last with
        | zero =>
          obtain rfl := Option.some.inj found
          rw [Token.not_isTerminator opens] at closes
          cases closes
        | succ last =>
          rw [List.getElem?_cons_succ] at found
          rw [List.drop_succ_cons] at others
          obtain ⟨inside, rfl⟩ := List.getElem?_eq_some_iff.mp found
          have parts : rest = rest.take last ++ rest[last] :: rest.drop (last + 1) := by
            rw [← List.drop_eq_getElem_cons inside, List.take_append_drop]
          have lines : ∀ s ∈ rest.take last, s.isTerminator = false := by
            intro s member
            obtain ⟨i, placed⟩ := List.mem_iff_getElem?.mp member
            rw [List.getElem?_take] at placed
            split at placed
            · rename_i below
              exact (block.between (i + 1) (Nat.succ_lt_succ below) (Nat.succ_pos i) s placed).2
            · cases placed
          have behind : Blocks (rest.drop (last + 1)) :=
            ih _ (by rw [List.length_drop]; omega) others rfl
          rw [parts]
          exact .function ⟨t, rest.take last, rest[last]⟩ _ opens lines closes behind

end Places

theorem Blocks.moved {tokens : List Token} (blocks : Blocks tokens) (move : Origin → Origin) :
    Blocks (tokens.map (Token.moved move)) := by
  induction blocks with
  | nil => exact .nil
  | directive t rest directive _ ih => exact .directive _ _ directive ih
  | function f rest opens inside closes _ ih =>
    have lines : ∀ t ∈ f.lines.map (Token.moved move), t.isTerminator = false :=
      List.forall_mem_map.mpr inside
    have whole := Blocks.function
      ⟨f.header.moved move, f.lines.map (Token.moved move), f.terminator.moved move⟩ _ opens lines
      closes ih
    rw [List.map_append]
    exact whole

/-- Expansion leaves functions where they are. -/
theorem Blocks.expand {tokens expanded : List Token} (blocks : Blocks tokens) {c : Constants}
    (expands : c.expand tokens = .ok expanded) : Blocks expanded := by
  induction blocks generalizing c expanded with
  | nil =>
    cases expands
    exact .nil
  | directive t rest directive _ ih =>
    rcases Constants.expand_cons_cases expands with ⟨_, entry, _, later⟩ | ⟨other, _⟩
    · exact ih later
    · exact absurd directive other
  | function f rest opens inside closes _ ih =>
    have statement {t : Token} (kind : t.kind ≠ .directive) {c : Constants} {rest expanded : List Token}
        (expands : c.expand (t :: rest) = .ok expanded) : ∃ token others,
        token.kind = t.kind ∧ c.expand rest = .ok others ∧ expanded = token :: others := by
      rcases Constants.expand_cons_cases expands with
        ⟨directive, _⟩ | ⟨_, token, others, here, later, same⟩
      · exact absurd directive kind
      · refine ⟨token, others, ?_, later, same⟩
        rw [Constants.expandToken_shape here]
    obtain ⟨upper, lower, front, back, rfl⟩ := Constants.expand_append_eq_ok.mp expands
    obtain ⟨header, lines, same, body, rfl⟩ :=
      statement (by rw [Token.isHeader_iff.mp opens]; nofun) front
    obtain ⟨terminator, others, ends, later, rfl⟩ :=
      statement (by rw [Token.isTerminator_iff.mp closes]; nofun) back
    refine .function ⟨header, lines, terminator⟩ others ?_ ?_ ?_ (ih later)
    · rw [Token.isHeader_iff, same, Token.isHeader_iff.mp opens]
    · intro t member
      obtain ⟨raw, line, shape⟩ := Constants.expand_mem _ _ _ body t member
      rw [shape]
      exact inside raw line
    · rw [Token.isTerminator_iff, ends, Token.isTerminator_iff.mp closes]

end Tokens

section Divisions

theorem divideFunction_behind {lines rest main inner : List Token} {terminator last : Token}
    {functions : List FunctionText} (inside : ∀ t ∈ lines, t.isTerminator = false)
    (closes : terminator.isTerminator = true)
    (divided : divideFunction (lines ++ terminator :: rest) = some (inner, last, main, functions)) :
    divideLines rest = some (main, functions) := by
  induction lines generalizing inner with
  | nil =>
    rw [List.nil_append, divideFunction, if_pos (Token.isTerminator_iff.mp closes)] at divided
    obtain ⟨⟨main, functions⟩, behind, same⟩ := Option.map_eq_some_iff.mp divided
    cases same
    exact behind
  | cons t lines ih =>
    rw [List.forall_mem_cons] at inside
    have line : t.kind ≠ .keyword .finish := by
      rw [ne_eq, ← Token.isTerminator_iff, inside.1]
      exact Bool.false_ne_true
    rw [List.cons_append, divideFunction, if_neg line] at divided
    split at divided
    · obtain ⟨⟨others, behind⟩, later, same⟩ := Option.map_eq_some_iff.mp divided
      cases same
      exact ih inside.2 later
    · cases divided

/-- Functions leave no line to the main scope. -/
theorem Tokens.Blocks.main_nil {tokens main : List Token} {functions : List FunctionText}
    (blocks : Tokens.Blocks tokens) (divides : Divides tokens main functions) : main = [] := by
  have divided := divides.divideLines_eq
  clear divides
  induction blocks generalizing functions with
  | nil =>
    rw [divideLines] at divided
    cases divided
    rfl
  | directive t rest directive _ _ =>
    have other : t.kind ≠ .keyword .function := by
      rw [directive]
      exact Kind.noConfusion
    have outside : ¬ t.InBody := by
      rintro (instruction | label)
      · rw [directive] at instruction
        cases instruction
      · unfold Token.placedLabel? at label
        rw [directive] at label
        cases label
    rw [divideLines, if_neg other, if_neg outside] at divided
    cases divided
  | function f rest opens inside closes _ ih =>
    rw [List.cons_append, divideLines, if_pos (Token.isHeader_iff.mp opens)] at divided
    obtain ⟨⟨lines, terminator, _, _⟩, behind, same⟩ := Option.map_eq_some_iff.mp divided
    cases same
    exact ih (divideFunction_behind inside closes behind)

/-- Enclosed tokens behind others add functions only. -/
theorem Tokens.Blocks.divides {upper lower main main' : List Token}
    {functions functions' : List FunctionText} (blocks : Tokens.Blocks lower)
    (divides : Divides upper main functions) (grown : Divides (upper ++ lower) main' functions') :
    main' = main ∧ ∃ added, functions' = functions ++ added := by
  have whole := grown.divideLines_eq
  rw [divides.divideLines_append] at whole
  obtain ⟨⟨more, added⟩, behind, same⟩ := Option.map_eq_some_iff.mp whole
  cases same
  rw [blocks.main_nil ((divides_iff _ _ _).mpr behind), List.append_nil]
  exact ⟨rfl, added, rfl⟩

end Divisions

end Accumulator
