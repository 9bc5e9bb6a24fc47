import Accumulator.Proofs.Program.Denotation
import Accumulator.Proofs.Program.Division
import Accumulator.Proofs.Source.Origin
import Mathlib.Data.List.Nodup

set_option autoImplicit false

/-!
Names tell apart what they name: no two functions of a program share a name, and no two labels of a
scope. The mnemonics of a program that comes from a source text are all in the instruction set.
-/

namespace Accumulator

open Source

/-- The names of the labels among the lines of a scope. -/
def labelNames (body : List Token) : List String :=
  (body.filter Token.isLabel).map Token.mnemonic

theorem labelNames_append (before after : List Token) :
    labelNames (before ++ after) = labelNames before ++ labelNames after := by
  unfold labelNames
  rw [List.filter_append, List.map_append]

theorem Source.Token.InBody.labelNames_kept {t : Token} (inside : t.InBody) :
    labelNames [t.kept] = t.placedLabel?.toList := by
  rcases inside.cases with ⟨name, places, kept⟩ | ⟨instruction, unplaced, kept⟩
  · rw [kept, places]
    rfl
  · have unlabelled : t.isLabel = false := by
      unfold Token.isLabel
      rw [instruction]
      rfl
    rw [kept, unplaced]
    simp [labelNames, unlabelled]

theorem labelNames_kept (lines : List Token) (inside : ∀ t ∈ lines, t.InBody) :
    labelNames (lines.map Token.kept) = lines.filterMap Token.placedLabel? := by
  induction lines with
  | nil => rfl
  | cons t lines ih =>
    have first := (inside t List.mem_cons_self).labelNames_kept
    have later := ih fun other member => inside other (List.mem_cons_of_mem _ member)
    rw [List.map_cons, ← List.singleton_append, labelNames_append, first, later]
    cases places : t.placedLabel? with
    | none => rw [List.filterMap_cons_none places, Option.toList_none, List.nil_append]
    | some name => rw [List.filterMap_cons_some places, Option.toList_some, List.singleton_append]

/-- The declarations of parameters are no labels. -/
theorem labelNames_params (header : Token) (params : List String) :
    labelNames (params.map (header.derive "VAR")) = [] := by
  unfold labelNames
  rw [List.map_eq_nil_iff, List.filter_eq_nil_iff]
  intro t member
  obtain ⟨param, _, rfl⟩ := List.mem_map.mp member
  exact Bool.false_ne_true

theorem labelOffsets_names (frame offset : Nat) (code : List Token) :
    (labelOffsets frame offset code).map Prod.fst = labelNames code := by
  induction code generalizing offset with
  | nil => rfl
  | cons t code ih =>
    unfold labelOffsets
    by_cases label : t.isLabel = true
    · rw [if_pos label, List.map_cons, ih, ← List.singleton_append (l := code), labelNames_append]
      simp [labelNames, label]
    · rw [if_neg label, ih, ← List.singleton_append (l := code), labelNames_append]
      simp [labelNames, label]

/-- The labels of a scope are those of its lines, the hoisted ones first. -/
theorem Scope.ofBody_label_names (name : String) (header : Option Token) (params : List String)
    (body : List Token) (terminator : Option Token) :
    ((Scope.ofBody name header params body terminator).labels.map Prod.fst).Perm
      (labelNames body) := by
  have parts := (List.filter_append_perm Token.isDeclaration body).filter Token.isLabel
  have names := parts.map Token.mnemonic
  change (labelNames (body.filter Token.isDeclaration ++
    body.filter fun t => !t.isDeclaration)).Perm (labelNames body) at names
  rw [labelNames_append] at names
  unfold Scope.ofBody
  rw [List.map_append, labelOffsets_names, List.map_map]
  exact names

/-- A label that occurs once has the offset that it is listed with. -/
theorem Scope.label?_of_mem {s : Scope} (distinct : (s.labels.map Prod.fst).Nodup) (name : String)
    (offset : Nat) (member : (name, offset) ∈ s.labels) : s.label? name = some offset := by
  unfold Scope.label?
  obtain ⟨before, after, split⟩ := List.append_of_mem member
  rw [split, List.map_append, List.nodup_append] at distinct
  rw [List.lookup_eq_some_iff]
  refine ⟨before, after, split, ?_⟩
  intro other earlier
  rw [bne_iff_ne]
  intro same
  exact distinct.2.2 other.1 (List.mem_map_of_mem earlier) name (by simp) same.symm

/-- The names that have been read so far are distinct. -/
structure Nesting.Distinct (n : Nesting) : Prop where
  functions : (n.functions.map Scope.name).Nodup
  labels : ∀ s ∈ n.functions, (s.labels.map Prod.fst).Nodup
  main : (labelNames n.main).Nodup
  fresh : ∀ f, n.current = some f → ∀ s ∈ n.functions, s.name ≠ f.name
  body : ∀ f, n.current = some f → (labelNames f.body).Nodup

theorem labelNames_kept_nodup {body : List Token} {t : Token} (inside : t.InBody)
    (distinct : (labelNames body).Nodup)
    (fresh : ∀ name, t.placedLabel? = some name →
      ∀ other ∈ body, other.isLabel = true → other.mnemonic ≠ name) :
    (labelNames (body ++ [t.kept])).Nodup := by
  rw [labelNames_append, inside.labelNames_kept, List.nodup_append]
  refine ⟨distinct, by cases t.placedLabel? <;> simp, ?_⟩
  intro name before other placed same
  obtain ⟨line, member, rfl⟩ := List.mem_map.mp before
  obtain ⟨earlier, labelled⟩ := List.mem_filter.mp member
  exact fresh other (Option.mem_toList.mp placed) line earlier labelled same

theorem Nesting.Distinct.step {n next : Nesting} {t : Token} (distinct : n.Distinct)
    (stepped : n.Step t next) : next.Distinct := by
  cases stepped with
  | line inside _ fresh =>
    unfold Nesting.body at fresh
    unfold Nesting.push
    split
    · rename_i idle
      rw [idle] at fresh
      exact ⟨distinct.functions, distinct.labels,
        labelNames_kept_nodup inside distinct.main fresh, distinct.fresh, distinct.body⟩
    · rename_i f opened
      rw [opened] at fresh
      refine ⟨distinct.functions, distinct.labels, distinct.main, ?_, ?_⟩
      · intro g same
        cases same
        exact distinct.fresh f opened
      · intro g same
        cases same
        exact labelNames_kept_nodup inside (distinct.body f opened) fresh
  | opens name params header idle args _ apart fresh =>
    refine ⟨distinct.functions, distinct.labels, distinct.main, ?_, ?_⟩
    · intro f same
      cases same
      exact fresh
    · intro f same
      cases same
      change (labelNames (params.map (t.derive "VAR"))).Nodup
      rw [labelNames_params]
      exact List.nodup_nil
  | closes f terminator opened _ =>
    refine ⟨?_, ?_, distinct.main, nofun, nofun⟩
    · rw [List.map_append, List.nodup_append]
      refine ⟨distinct.functions, List.nodup_singleton _, ?_⟩
      intro name earlier other last same
      obtain ⟨s, member, rfl⟩ := List.mem_map.mp earlier
      rw [List.map_singleton, List.mem_singleton] at last
      exact distinct.fresh f opened s member (same.trans last)
    · intro s member
      rcases List.mem_append.mp member with before | last
      · exact distinct.labels s before
      · rw [List.mem_singleton] at last
        subst last
        exact (Scope.ofBody_label_names ..).nodup_iff.mpr (distinct.body f opened)

theorem Nesting.start_distinct : Nesting.start.Distinct :=
  ⟨List.nodup_nil, nofun, List.nodup_nil, nofun, nofun⟩

theorem Program.distinct {tokens : List Token} {program : Program}
    (parsed : Program.ofTokens tokens = .ok program) :
    (program.functions.map Scope.name).Nodup ∧
      ∀ s ∈ program.scopes, (s.labels.map Prod.fst).Nodup := by
  obtain ⟨n, accepted, _, rfl⟩ := Program.ofTokens_eq_ok.mp parsed
  have distinct : n.Distinct := by
    apply Nesting.foldlM_invariant Nesting.Distinct tokens _ Nesting.start_distinct accepted
    intro t _ before after holds stepped
    exact holds.step stepped
  refine ⟨distinct.functions, ?_⟩
  intro s member
  rcases List.mem_cons.mp member with rfl | function
  · exact (Scope.ofBody_label_names ..).nodup_iff.mpr distinct.main
  · exact distinct.labels s function

theorem Layout.named_of_ofProgram {tokens : List Token} {program : Program} {l : Layout}
    (parsed : Program.ofTokens tokens = .ok program) (placed : Layout.ofProgram program = .ok l) :
    l.Named := by
  have places := Layout.places_of_ofProgram placed
  refine ⟨?_, ?_⟩
  · have distinct := (Program.distinct parsed).1
    rw [← places.functions, List.map_map] at distinct
    exact distinct
  · intro p member
    have formed := Program.formed_of_tokens tokens program parsed _ (places.scope_mem p member)
    exact formed.declares (places.declared p member)

/-- An instruction has a mnemonic of the instruction set. -/
def Source.Token.Known (t : Token) : Prop :=
  t.kind = .instruction → Instruction.isMnemonic t.mnemonic = true

theorem Source.Token.known_of_fields {mnemonic : String} {args : List String}
    (kind : Kind.ofFields? mnemonic args = some .instruction) :
    Instruction.isMnemonic mnemonic = true := by
  unfold Kind.ofFields? at kind
  split at kind
  · cases kind
  · split at kind
    · assumption
    · split at kind
      · cases kind
      · split at kind <;> cases kind

/-- The kind of a token is that of its fields. -/
theorem Source.Token.kind_of_line {number : Nat} {line : List Char} {t : Token}
    (read : Token.ofLine? number line = .ok (some t)) :
    Kind.ofFields? t.mnemonic t.args = some t.kind := by
  unfold Token.ofLine? at read
  dsimp only at read
  split at read
  · cases read
  · split at read
    · rename_i kind fields
      cases read
      exact fields
    · cases read

theorem Source.Token.known_of_line {number : Nat} {line : List Char} {t : Token}
    (read : Token.ofLine? number line = .ok (some t)) : t.Known := by
  intro instruction
  have fields := Token.kind_of_line read
  rw [instruction] at fields
  exact Token.known_of_fields fields

/-- A line that is a label on its own is a name. -/
theorem Source.Token.identifier_of_line {number : Nat} {line : List Char} {t : Token}
    (read : Token.ofLine? number line = .ok (some t)) (label : t.kind = .label) :
    Text.isIdentifier t.mnemonic = true := by
  have fields := Token.kind_of_line read
  rw [label] at fields
  unfold Kind.ofFields? at fields
  split at fields
  · cases fields
  · split at fields
    · cases fields
    · split at fields
      · cases fields
      · split at fields
        · rename_i bare
          exact bare.2
        · cases fields

theorem Source.Token.known_of_expanded {text : List Char} {tokens expanded : List Token}
    (scanned : Token.scan text = .ok tokens) (expands : Source.expand tokens = .ok expanded) :
    ∀ t ∈ expanded, t.Known := by
  intro t member
  obtain ⟨line, raw, _, read, same⟩ := Token.readFrom_of_expanded scanned expands t member
  have known := Token.known_of_line read
  rw [same]
  exact known

theorem expandBody_mnemonic (frame : Nat) (line t : Token) (known : line.Known)
    (shape : line.IsLine) (member : t ∈ expandBody frame line) :
    Instruction.isMnemonic t.mnemonic = true := by
  have passing : ∀ mnemonic ∈ passingMnemonics, Instruction.isMnemonic mnemonic = true := by
    decide +kernel
  obtain ⟨unlabelled, rfl | ⟨mnemonic, passes, operand, rfl⟩⟩ := mem_expandBody member
  · rcases shape with instruction | ⟨label, _⟩
    · exact known instruction
    · simp [Token.isLabel, label] at unlabelled
  · exact passing mnemonic passes

theorem Source.Token.Known.kept {t : Token} (known : t.Known) : t.kept.Known := by
  unfold Token.kept
  split
  · exact nofun
  · exact known

theorem Scope.ofBody_mnemonics (name : String) (header : Option Token) (params : List String)
    (lines : List Token) (terminator : Option Token)
    (body : ∀ t ∈ lines, t.InBody ∧ t.Known) :
    ∀ t ∈ (Scope.ofBody name header params (lines.map Token.kept) terminator).tokens,
      Instruction.isMnemonic t.mnemonic = true := by
  intro t member
  rcases List.mem_append.mp member with declaration | code
  · have named : t.mnemonic = "VAR" := eq_of_beq (List.mem_filter.mp declaration).2
    rw [named]
    decide +kernel
  · obtain ⟨line, inside, emitted⟩ := List.mem_flatMap.mp code
    obtain ⟨source, member, rfl⟩ := List.mem_map.mp (List.mem_filter.mp inside).1
    obtain ⟨shape, known⟩ := body source member
    exact expandBody_mnemonic _ source.kept t known.kept shape.kept_isLine emitted

/-- All that the scopes of a source text hold is in the instruction set. -/
theorem Program.mnemonics_of_source {text : List Char} {program : Program}
    (parsed : Program.ofSource text = .ok program) :
    ∀ s ∈ program.scopes, ∀ t ∈ s.tokens, Instruction.isMnemonic t.mnemonic = true := by
  obtain ⟨tokens, expanded, parsed⟩ := Program.ofSource_eq_ok.mp parsed
  obtain ⟨scanned, read, expands⟩ := bind_eq_ok.mp expanded
  have known := Token.known_of_expanded read expands
  obtain ⟨main, functions, divides, mainScope, scopes⟩ := Program.divides parsed
  obtain ⟨mainLines, lines⟩ := divides.inBody
  intro s member
  rcases List.mem_cons.mp member with rfl | function
  · rw [mainScope]
    apply Scope.ofBody_mnemonics
    intro t inside
    exact ⟨(mainLines t inside).2, known t (mainLines t inside).1⟩
  · rw [scopes] at function
    obtain ⟨f, listed, rfl⟩ := List.mem_map.mp function
    have declared : Instruction.isMnemonic "VAR" = true := by decide +kernel
    apply Scope.ofBody_mnemonics
    apply FunctionText.forall_allLines fun t => t.InBody ∧ t.Known
    · exact fun _ => ⟨.inl rfl, fun _ => declared⟩
    · intro t inside
      exact ⟨(lines f listed t inside).2, known t (lines f listed t inside).1⟩

end Accumulator
