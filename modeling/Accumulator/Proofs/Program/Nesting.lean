import Accumulator.Assembly
import Accumulator.Proofs.Program.Declaration

set_option autoImplicit false

/-!
What taking a token in can do, said once. Every scope of a program comes from the lines of a body,
whatever the order of the tokens.
-/

namespace Accumulator

open Source

/-- The label that a line places: its own mnemonic, or the argument of the keyword. -/
def Source.Token.placedLabel? (t : Token) : Option String :=
  match t.kind, t.args with
  | .label, _ => some t.mnemonic
  | .keyword .label, [name] => some name
  | _, _ => none

/-- A line of a body: an instruction, or one that places a label. -/
def Source.Token.InBody (t : Token) : Prop :=
  t.kind = .instruction ∨ t.placedLabel?.isSome = true

/-- A line as its scope keeps it: a label has its name for a mnemonic and no arguments. -/
def Source.Token.kept (t : Token) : Token :=
  match t.placedLabel? with
  | some name => ⟨.label, name, [], t.origin⟩
  | none => t

theorem Source.Token.placedLabel?_of_instruction {t : Token} (instruction : t.kind = .instruction) :
    t.placedLabel? = none := by
  unfold Token.placedLabel?
  rw [instruction]

theorem Source.Token.placedLabel?_eq_some {t : Token} {name : String}
    (places : t.placedLabel? = some name) :
    t.kind = .label ∧ t.mnemonic = name ∨ t.kind = .keyword .label ∧ t.args = [name] := by
  unfold Token.placedLabel? at places
  split at places
  · rename_i label
    exact .inl ⟨label, Option.some.inj places⟩
  · rename_i other label args
    cases places
    exact .inr ⟨label, args⟩
  · cases places

theorem Source.Token.kept_of_instruction {t : Token} (instruction : t.kind = .instruction) :
    t.kept = t := by
  unfold Token.kept
  rw [Token.placedLabel?_of_instruction instruction]

@[simp] theorem Source.Token.kept_origin (t : Token) : t.kept.origin = t.origin := by
  unfold Token.kept
  split <;> rfl

/-- A line of a body places a label, or it is an instruction that its scope keeps as it is. -/
theorem Source.Token.InBody.cases {t : Token} (inside : t.InBody) :
    (∃ name, t.placedLabel? = some name ∧ t.kept = ⟨.label, name, [], t.origin⟩) ∨
      (t.kind = .instruction ∧ t.placedLabel? = none ∧ t.kept = t) := by
  cases places : t.placedLabel? with
  | some name =>
    refine .inl ⟨name, rfl, ?_⟩
    unfold Token.kept
    rw [places]
  | none =>
    have instruction : t.kind = .instruction := by
      rcases inside with instruction | label
      · exact instruction
      · rw [places] at label
        cases label
    exact .inr ⟨instruction, rfl, Token.kept_of_instruction instruction⟩

theorem Source.Token.InBody.kept_isLine {t : Token} (inside : t.InBody) : t.kept.IsLine := by
  rcases inside.cases with ⟨name, _, kept⟩ | ⟨instruction, _, kept⟩
  · rw [kept]
    exact .inr ⟨rfl, rfl⟩
  · rw [kept]
    exact .inl instruction

namespace Nesting

/-- All that taking a token in can do, and when it does. -/
inductive Step (n : Nesting) (t : Token) : Nesting → Prop
  | line (inside : t.InBody)
      (named : t.kind = .keyword .label → ∀ name ∈ t.args, Text.isIdentifier name = true)
      (fresh : ∀ name, t.placedLabel? = some name →
        ∀ other ∈ n.body, other.isLabel = true → other.mnemonic ≠ name) : Step n t (n.push t.kept)
  | opens (name : String) (params : List String) (header : t.kind = .keyword .function)
      (idle : n.current = none) (args : t.args = name :: params)
      (identifiers : ∀ text ∈ name :: params, Text.isIdentifier text = true)
      (apart : name ≠ mainName) (fresh : ∀ s ∈ n.functions, s.name ≠ name) :
      Step n t { n with current := some ⟨t, name, params, params.map (t.derive "VAR")⟩ }
  | closes (f : OpenFunction) (terminator : t.kind = .keyword .finish)
      (opened : n.current = some f) (bare : t.args = []) :
      Step n t { n with
        functions := n.functions ++ [Scope.ofBody f.name (some f.header) f.params f.body (some t)]
        current := none }

theorem addLabel_step {n next : Nesting} {t : Token} {name : String}
    (places : t.placedLabel? = some name)
    (named : t.kind = .keyword .label → ∀ name ∈ t.args, Text.isIdentifier name = true)
    (added : n.addLabel name t = .ok next) : n.Step t next := by
  unfold addLabel at added
  split at added
  · cases added
  · rename_i fresh
    have kept : t.kept = ⟨.label, name, [], t.origin⟩ := by
      unfold Token.kept
      rw [places]
    rw [← kept] at added
    cases added
    refine .line (.inr (Option.isSome_of_eq_some places)) named ?_
    intro other same token member labelled shared
    rw [places] at same
    cases same
    apply fresh
    rw [List.any_eq_true]
    exact ⟨token, member, by simp [labelled, shared]⟩

theorem openFunction_step {n next : Nesting} {t : Token} (header : t.kind = .keyword .function)
    (opened : n.openFunction t = .ok next) : n.Step t next := by
  unfold openFunction at opened
  split at opened
  · cases opened
  · cases opened
  · rename_i name params idle args
    split at opened
    · cases opened
    · rename_i identifiers
      split at opened
      · cases opened
      · rename_i fresh
        cases opened
        have apart : name ≠ mainName := fun same => fresh (.inl same)
        refine .opens name params header idle args ?_ apart ?_
        · simpa using List.find?_eq_none.mp identifiers
        intro s member same
        exact fresh (.inr (List.any_eq_true.mpr ⟨s, member, by simp [same]⟩))

theorem closeFunction_step {n next : Nesting} {t : Token} (terminator : t.kind = .keyword .finish)
    (closed : n.closeFunction t = .ok next) : n.Step t next := by
  unfold closeFunction at closed
  split at closed
  · cases closed
  · rename_i f opened
    split at closed
    · rename_i bare
      cases closed
      exact .closes f terminator opened bare
    · cases closed

theorem accept_step {n next : Nesting} {t : Token} (accepted : n.accept t = .ok next) :
    n.Step t next := by
  unfold accept at accepted
  split at accepted
  · rename_i header
    exact openFunction_step header accepted
  · rename_i terminator
    exact closeFunction_step terminator accepted
  · rename_i keyword
    split at accepted
    · rename_i name args
      split at accepted
      · rename_i identifier
        have places : t.placedLabel? = some name := by
          unfold Token.placedLabel?
          rw [keyword, args]
        refine addLabel_step places ?_ accepted
        intro _ other member
        rw [args, List.mem_singleton] at member
        exact member ▸ identifier
      · cases accepted
    · cases accepted
  · rename_i label
    have places : t.placedLabel? = some t.mnemonic := by
      unfold Token.placedLabel?
      rw [label]
    refine addLabel_step places ?_ accepted
    intro keyword
    rw [label] at keyword
    cases keyword
  · rename_i instruction
    cases accepted
    have step : n.Step t (n.push t.kept) := by
      refine .line (.inl instruction) ?_ ?_
      · intro keyword
        rw [instruction] at keyword
        cases keyword
      intro name places
      rw [Token.placedLabel?_of_instruction instruction] at places
      cases places
    rw [Token.kept_of_instruction instruction] at step
    exact step
  · cases accepted

theorem addLabel_of_fresh {n : Nesting} {t : Token} {name : String}
    (places : t.placedLabel? = some name)
    (fresh : ∀ other ∈ n.body, other.isLabel = true → other.mnemonic ≠ name) :
    n.addLabel name t = .ok (n.push t.kept) := by
  have kept : t.kept = ⟨.label, name, [], t.origin⟩ := by
    unfold Token.kept
    rw [places]
  have unused : ¬ (n.body.any fun other => other.isLabel && other.mnemonic == name) = true := by
    rw [List.any_eq_true]
    rintro ⟨other, member, found⟩
    rw [Bool.and_eq_true, beq_iff_eq] at found
    exact fresh other member found.1 found.2
  unfold addLabel
  rw [if_neg unused, kept]

theorem accept_of_step {n next : Nesting} {t : Token} (stepped : n.Step t next) :
    n.accept t = .ok next := by
  unfold accept
  cases stepped with
  | line inside named fresh =>
    rcases inside.cases with ⟨name, places, _⟩ | ⟨instruction, _, kept⟩
    · have added := addLabel_of_fresh places (fresh name places)
      rcases Token.placedLabel?_eq_some places with ⟨label, rfl⟩ | ⟨keyword, args⟩
      · rw [label]
        exact added
      · have identifier := named keyword name (args ▸ List.mem_singleton_self name)
        rw [keyword, args]
        dsimp only
        rw [if_pos identifier]
        exact added
    · rw [instruction, kept]
  | opens name params header idle args identifiers apart fresh =>
    have none : (name :: params).find? (fun text => !Text.isIdentifier text) = .none := by
      rw [List.find?_eq_none]
      intro text member
      simp [identifiers text member]
    have unused : ¬ (name = mainName ∨ (n.functions.any fun s => s.name == name) = true) := by
      rintro (same | shared)
      · exact apart same
      · obtain ⟨s, member, same⟩ := List.any_eq_true.mp shared
        exact fresh s member (eq_of_beq same)
    rw [header]
    dsimp only
    unfold openFunction
    rw [idle, args]
    dsimp only
    rw [none]
    dsimp only
    rw [if_neg unused]
  | closes f terminator opened bare =>
    rw [terminator]
    dsimp only
    unfold closeFunction
    rw [opened]
    dsimp only
    rw [if_pos bare]

/-- What every step keeps holds after all tokens. -/
theorem foldlM_invariant (P : Nesting → Prop) (tokens : List Token)
    (step : ∀ t ∈ tokens, ∀ n next, P n → n.Step t next → P next) {n last : Nesting} (first : P n)
    (accepted : tokens.foldlM accept n = .ok last) : P last := by
  induction tokens generalizing n with
  | nil =>
    rw [List.foldlM_nil, pure_eq_ok] at accepted
    exact accepted ▸ first
  | cons t tokens ih =>
    rw [List.foldlM_cons, bind_eq_ok] at accepted
    obtain ⟨next, here, later⟩ := accepted
    have kept : P next := step t List.mem_cons_self n next first (accept_step here)
    exact ih (fun other member => step other (List.mem_cons_of_mem _ member)) kept later

end Nesting

/-- What has been read so far consists of finished scopes and of lines. -/
structure Nesting.Formed (n : Nesting) : Prop where
  main : ∀ t ∈ n.main, t.IsLine
  functions : ∀ s ∈ n.functions, s.Formed
  current : ∀ f, n.current = some f → ∀ t ∈ f.body, t.IsLine

theorem Nesting.start_formed : Nesting.start.Formed :=
  ⟨by simp [Nesting.start], by simp [Nesting.start], by simp [Nesting.start]⟩

theorem Nesting.Formed.push {n : Nesting} (formed : n.Formed) (t : Token) (line : t.IsLine) :
    (n.push t).Formed := by
  unfold Nesting.push
  split
  · refine ⟨?_, formed.functions, formed.current⟩
    intro other member
    rcases List.mem_append.mp member with before | last
    · exact formed.main other before
    · rw [List.mem_singleton] at last
      exact last ▸ line
  · rename_i f opened
    refine ⟨formed.main, formed.functions, ?_⟩
    intro g same other member
    cases same
    rcases List.mem_append.mp member with before | last
    · exact formed.current f opened other before
    · rw [List.mem_singleton] at last
      exact last ▸ line

theorem Nesting.Formed.step {n next : Nesting} {t : Token} (formed : n.Formed)
    (stepped : n.Step t next) : next.Formed := by
  cases stepped with
  | line inside _ _ => exact formed.push _ inside.kept_isLine
  | opens name params _ _ _ _ _ _ =>
    refine ⟨formed.main, formed.functions, ?_⟩
    intro f same line member
    cases same
    obtain ⟨param, _, rfl⟩ := List.mem_map.mp member
    exact Or.inl rfl
  | closes f _ opened _ =>
    refine ⟨formed.main, ?_, by simp⟩
    intro s member
    rcases List.mem_append.mp member with before | last
    · exact formed.functions s before
    · rw [List.mem_singleton] at last
      exact ⟨f.body, formed.current f opened, last ▸ rfl⟩

theorem Program.ofTokens_eq_ok {tokens : List Token} {program : Program} :
    Program.ofTokens tokens = .ok program ↔
      ∃ n : Nesting, tokens.foldlM Nesting.accept .start = .ok n ∧ n.current = none ∧
        program = ⟨Scope.ofBody mainName none [] n.main none, n.functions⟩ := by
  unfold Program.ofTokens
  rw [bind_eq_ok]
  constructor
  · rintro ⟨n, accepted, finished⟩
    unfold Nesting.finish at finished
    split at finished
    · cases finished
    · rename_i ended
      cases finished
      exact ⟨n, accepted, ended, rfl⟩
  · rintro ⟨n, accepted, ended, rfl⟩
    refine ⟨n, accepted, ?_⟩
    unfold Nesting.finish
    rw [ended]

theorem Program.formed_of_tokens (tokens : List Token) (program : Program)
    (parsed : Program.ofTokens tokens = .ok program) : ∀ s ∈ program.scopes, s.Formed := by
  obtain ⟨n, accepted, _, rfl⟩ := Program.ofTokens_eq_ok.mp parsed
  have formed : n.Formed := by
    apply Nesting.foldlM_invariant Nesting.Formed tokens _ Nesting.start_formed accepted
    intro t _ before after holds stepped
    exact holds.step stepped
  intro s member
  rcases List.mem_cons.mp member with rfl | function
  · exact ⟨n.main, formed.main, rfl⟩
  · exact formed.functions s function

/-- A text has the program of its expanded tokens. -/
theorem Program.ofSource_eq_ok {text : List Char} {program : Program} :
    Program.ofSource text = .ok program ↔ ∃ tokens,
      (Token.scan text >>= Source.expand) = .ok tokens ∧ Program.ofTokens tokens = .ok program := by
  unfold Program.ofSource
  simp only [bind_eq_ok]
  constructor
  · rintro ⟨scanned, read, tokens, expands, parsed⟩
    exact ⟨tokens, ⟨scanned, read, expands⟩, parsed⟩
  · rintro ⟨tokens, ⟨scanned, read, expands⟩, parsed⟩
    exact ⟨scanned, read, tokens, expands, parsed⟩

theorem Program.formed_of_source (text : List Char) (program : Program)
    (parsed : Program.ofSource text = .ok program) : ∀ s ∈ program.scopes, s.Formed := by
  obtain ⟨tokens, _, parsed⟩ := Program.ofSource_eq_ok.mp parsed
  exact Program.formed_of_tokens tokens program parsed

/-- A program is assembled in two stages. -/
theorem Assembly.ofProgram_eq_ok {program : Program} {a : Assembly} :
    (do
      let layout ← Layout.ofProgram program
      let words ← layout.code
      return ⟨layout, words⟩ : Except Fault Assembly) = .ok a ↔
      Layout.ofProgram program = .ok a.layout ∧ a.layout.code = .ok a.words := by
  simp only [bind_eq_ok, pure_eq_ok]
  constructor
  · rintro ⟨layout, placed, words, coded, rfl⟩
    exact ⟨placed, coded⟩
  · rintro ⟨placed, coded⟩
    exact ⟨a.layout, placed, a.words, coded, rfl⟩

/-- A source is assembled in three stages. -/
theorem Assembly.ofSource_eq_ok {text : List Char} {a : Assembly} :
    Assembly.ofSource text = .ok a ↔
      ∃ program, Program.ofSource text = .ok program ∧ Layout.ofProgram program = .ok a.layout ∧
        a.layout.code = .ok a.words := by
  unfold Assembly.ofSource
  rw [bind_eq_ok]
  simp only [Assembly.ofProgram_eq_ok]

end Accumulator
