import Accumulator.Proofs.Assembled.Mirroring
import Accumulator.Proofs.Program.Insertion
import Accumulator.Proofs.Source.Written

set_option autoImplicit false

/-!
A line that places a label emits no word. Put between the lines of a program, it leaves the words as
they are, unless its name is that of declarations.
-/

namespace Accumulator

open Source

section Text

/-- The line that places a label. -/
def labelLine (name : String) : List Char := "LABEL".toList ++ ' ' :: name.toList

/-- What is read of the line. -/
def labelContent (number : Nat) (name : String) : Content :=
  ⟨⟨number, String.ofList (Text.trim (labelLine name))⟩, "LABEL", [name]⟩

/-- The token of the line. -/
def labelToken (number : Nat) (name : String) : Token :=
  ⟨.keyword .label, "LABEL", [name], ⟨number, String.ofList (Text.trim (labelLine name))⟩⟩

variable {name : String}

theorem label_isWord : ∀ c ∈ "LABEL".toList, Text.isWordChar c = true :=
  List.all_eq_true.mp (by decide)

theorem labelLine_plain (identifier : Text.isIdentifier name = true) :
    ∀ c ∈ labelLine name, (c ≠ '\n' ∧ c ≠ '\r') ∧ c ≠ ';' ∧ c ≠ '/' := by
  unfold labelLine
  rw [List.forall_mem_append, List.forall_mem_cons]
  exact ⟨word_plain label_isWord, by decide, word_plain (Text.word_of_identifier identifier).2⟩

theorem ofLine?_labelLine (identifier : Text.isIdentifier name = true) (number : Nat) :
    Content.ofLine? number (labelLine name) = some (labelContent number name) := by
  obtain ⟨filled, word⟩ := Text.word_of_identifier identifier
  have fields : Text.fields (labelLine name) = ["LABEL".toList, name.toList] := by
    unfold labelLine
    rw [Text.fields_word _ (by decide) fun c member => (Text.isWordChar_plain (label_isWord c member)).1,
      Text.fields_last filled fun c member => (Text.isWordChar_plain (word c member)).1]
  unfold Content.ofLine?
  rw [stripComment_plain _ fun c member => (labelLine_plain identifier c member).2, fields]
  simp only [List.map_cons, List.map_nil, String.ofList_toList]
  rfl

theorem labelContent_token (number : Nat) (name : String) :
    (labelContent number name).token = .ok (labelToken number name) := by
  have kind : Kind.ofFields? "LABEL" [name] = some (.keyword .label) := by
    have head : "LABEL".toList.head? ≠ some '#' := by decide
    have other : ¬ Instruction.isMnemonic "LABEL" = true := by decide +kernel
    unfold Kind.ofFields?
    rw [if_neg head, if_neg other]
    rfl
  unfold Content.token labelContent
  rw [kind]
  rfl

end Text

section Mirrors

variable {lines lines' more more' : List Token}

theorem Mirrored.append {r : Renaming} (before : Mirrored r lines lines')
    (behind : Mirrored r more more') : Mirrored r (lines ++ more) (lines' ++ more') := by
  induction before with
  | nil => exact behind
  | instruction t t' _ _ first second mirrors _ ih => exact .instruction t t' _ _ first second mirrors ih
  | label t t' name _ _ first second _ ih => exact .label t t' name _ _ first second ih
  | added t' name _ _ places _ ih => exact .added t' name _ _ places ih

theorem map_identity (texts : List String) : texts = texts.map Renaming.identity.name :=
  (List.map_id'' Renaming.name_identity texts).symm

theorem Mirrored.refl (inside : ∀ t ∈ lines, t.InBody) : Mirrored .identity lines lines := by
  induction lines with
  | nil => exact .nil
  | cons t lines ih =>
    rw [List.forall_mem_cons] at inside
    rcases inside.1.cases with ⟨name, places, _⟩ | ⟨instruction, _, _⟩
    · have same : t.placedLabel? = some (Renaming.identity.name name) := by
        rw [places, Renaming.name_identity]
      exact .label t t name _ _ places same (ih inside.2)
    · exact .instruction t t _ _ instruction instruction ⟨rfl, map_identity _⟩ (ih inside.2)

theorem FunctionText.Mirrors.refl {f : FunctionText} (inside : ∀ t ∈ f.lines, t.InBody) :
    f.Mirrors .identity f :=
  ⟨map_identity _, .refl inside⟩

variable {t : Token} {name scope : String} {tokens main main' : List Token}
  {functions functions' : List FunctionText}

/-- A division with one more label has at least the labels that it had before. -/
theorem LineAdded.mirrors (added : LineAdded t scope main functions main' functions')
    (divides : Divides tokens main functions) (places : t.placedLabel? = some name) :
    Mirrored .identity main main' ∧
      List.Forall₂ (FunctionText.Mirrors .identity) functions functions' := by
  obtain ⟨mainLines, functionLines⟩ := divides.inBody
  have between (before after : List Token) (inside : ∀ s ∈ before ++ after, s.InBody) :
      Mirrored .identity (before ++ after) (before ++ t :: after) := by
    rw [List.forall_mem_append] at inside
    exact (Mirrored.refl inside.1).append (.added t name _ _ places (.refl inside.2))
  have same : ∀ f ∈ functions, f.Mirrors .identity f :=
    fun f listed => .refl fun s line => (functionLines f listed s line).2
  cases added with
  | main before after _ outside =>
    exact ⟨between before after fun s line => (mainLines s line).2, List.forall₂_same.mpr same⟩
  | function _ earlier later f before after lines inside =>
    have body : ∀ s ∈ before ++ after, s.InBody := by
      rw [← lines]
      exact fun s line => (functionLines f (by simp) s line).2
    have grown : f.Mirrors .identity { f with lines := before ++ t :: after } := by
      refine ⟨map_identity _, ?_⟩
      rw [lines]
      exact between before after body
    rw [List.forall_mem_append, List.forall_mem_cons] at same
    refine ⟨.refl fun s line => (mainLines s line).2, ?_⟩
    exact List.rel_append (List.forall₂_same.mpr same.1) (.cons grown (List.forall₂_same.mpr same.2.2))

end Mirrors

section Program

variable {t : Token} {name : String} {above below : List Token} {program : Program} {l : Layout}
  {words : List Word}

/-- Among tokens that lead to words, one more label leads to the same words. -/
theorem Program.label_added (parsed : Program.ofTokens (above ++ below) = .ok program)
    (placed : Layout.ofProgram program = .ok l) (coded : l.code = .ok words)
    (places : t.placedLabel? = some name) (identifier : Text.isIdentifier name = true)
    (lacks : program.Lacks (openScope above) name) (other : name ≠ "VAR") :
    ∃ program' l', Program.ofTokens (above ++ t :: below) = .ok program' ∧
      Layout.ofProgram program' = .ok l' ∧ l'.code = .ok words ∧
      ∃ p ∈ l'.placements, p.scope.name = openScope above ∧ (p.scope.label? name).isSome := by
  obtain ⟨main, functions, nested, rfl⟩ := Program.wellNested parsed
  have inside : t.InBody := .inr (Option.isSome_iff_exists.mpr ⟨name, places⟩)
  obtain ⟨main', functions', added, divides'⟩ := nested.divides.insert inside above below rfl
  have nested' := added.wellNested nested divides' places identifier lacks
  have plain' : ∀ s ∈ above ++ t :: below, s.placedLabel? ≠ some "VAR" := by
    have plain := nested.plain_of_layout placed
    rw [List.forall_mem_append] at plain
    rw [List.forall_mem_append, List.forall_mem_cons]
    refine ⟨plain.1, ?_, plain.2⟩
    rw [places]
    exact fun same => other (Option.some.inj same)
  obtain ⟨mainMirrors, mirrors⟩ := added.mirrors nested.divides places
  obtain ⟨l', placed', coded'⟩ :=
    nested.mirrored_code nested' mainMirrors mirrors plain' placed coded
  obtain ⟨s, listed, named, recorded⟩ := added.records divides' places
  obtain ⟨p, member, rfl⟩ := (Layout.places_of_ofProgram placed').placed listed
  exact ⟨_, l', nested'.program, placed', coded', p, member, named, recorded⟩

/-- A label with the name of declarations counts as one, which has no variable to declare. -/
theorem Program.label_like_declaration (places : t.placedLabel? = some "VAR")
    (parsed : Program.ofTokens (above ++ t :: below) = .ok program) :
    Layout.ofProgram program ≠ .ok l := by
  intro placed
  obtain ⟨main, functions, nested, rfl⟩ := Program.wellNested parsed
  exact nested.plain_of_layout placed t (by simp) places

end Program

section Source

/-- What is assembled from contents whose tokens are expanded. -/
theorem Assembly.ofContents_eq_ok {contents : List Content} {tokens expanded : List Token}
    (read : contents.mapM Content.token = .ok tokens) (expands : Source.expand tokens = .ok expanded)
    {a : Assembly} : ofContents contents = .ok a ↔
      ∃ program, Program.ofTokens expanded = .ok program ∧
        Layout.ofProgram program = .ok a.layout ∧ a.layout.code = .ok a.words := by
  unfold ofContents
  rw [read]
  change (Source.expand tokens >>= _) = _ ↔ _
  rw [expands]
  change (Program.ofTokens expanded >>= _) = _ ↔ _
  rw [bind_eq_ok]
  simp only [Assembly.ofProgram_eq_ok]

/-- The tokens of two parts of what is assembled, before and after their expansion. -/
theorem Assembly.parts_of_ofContents {upper lower : List Content} {a : Assembly}
    (assembled : ofContents (upper ++ lower) = .ok a) :
    ∃ above below upperTokens lowerTokens, upper.mapM Content.token = .ok above ∧
      lower.mapM Content.token = .ok below ∧ Source.expand above = .ok upperTokens ∧
      (Constants.empty.behind above).expand below = .ok lowerTokens := by
  unfold ofContents at assembled
  obtain ⟨tokens, read, assembled⟩ := bind_eq_ok.mp assembled
  obtain ⟨expanded, expands, _⟩ := bind_eq_ok.mp assembled
  rw [List.mapM_append] at read
  simp only [bind_eq_ok, pure_eq_ok] at read
  obtain ⟨above, upperRead, below, lowerRead, rfl⟩ := read
  obtain ⟨upperTokens, lowerTokens, upperExpands, lowerExpands, _⟩ :=
    Constants.expand_append_eq_ok.mp expands
  exact ⟨above, below, upperTokens, lowerTokens, upperRead, lowerRead, upperExpands, lowerExpands⟩

/-- Behind lines that define no constant of its name, a label stays as it is. -/
theorem expand_label {tokens below lowerTokens : List Token} {name : String} (number : Nat)
    (identifier : Text.isIdentifier name = true) (unmarked : afterMarker? name.toList = none)
    (undefined : name ∉ (Constants.empty.definitions tokens).map Prod.fst)
    (lower : (Constants.empty.behind tokens).expand below = .ok lowerTokens) :
    (Constants.empty.behind tokens).expand (labelToken number name :: below) =
      .ok (labelToken number name :: lowerTokens) := by
  have free : (Constants.empty.behind tokens).get? name = none :=
    Constants.get?_behind Constants.empty tokens name undefined
  have plain := (Constants.empty.behind tokens).expandToken_plain (labelToken number name) (by
    intro text argument
    rw [List.mem_singleton.mp argument]
    exact ⟨identifier, free, unmarked⟩)
  have other : (labelToken number name).kind ≠ .directive := nofun
  rw [Constants.expand, if_neg other, plain, lower]
  rfl

theorem Layout.Places.lacks {l : Layout} {program : Program} {move : Origin → Origin}
    {scope name : String} (places : (l.moved move).Places program)
    (free : ∀ p ∈ l.placements, p.scope.name = scope → p.scope.label? name = none) :
    program.Lacks scope name := by
  intro s member named
  obtain ⟨p, listed, rfl⟩ := places.placed member
  change p ∈ l.placements.map (Placement.moved move) at listed
  obtain ⟨q, original, rfl⟩ := List.mem_map.mp listed
  exact free q original named

/-- A line that places a label, put between two lines of a text that is assembled, leaves its words as
they are and adds the label to the scope, unless it is called like declarations. The label is to be no
constant of the lines above, no expression, and no label of the scope. -/
theorem label_line_emits_nothing (above below : List Char) (name : String) (a : Assembly)
    (assembled : Assembly.ofSource (above ++ '\n' :: below) = .ok a)
    (identifier : Text.isIdentifier name = true) (unmarked : afterMarker? name.toList = none) :
    ∃ tokens expanded, Token.scan (above ++ ['\n']) = .ok tokens ∧
      Source.expand tokens = .ok expanded ∧
      (name ∉ (Constants.empty.definitions tokens).map Prod.fst →
        (∀ p ∈ a.layout.placements, p.scope.name = openScope expanded →
          p.scope.label? name = none) →
        ((∃ b, Assembly.ofSource (above ++ '\n' :: (labelLine name ++ '\n' :: below)) = .ok b ∧
            b.words = a.words ∧ ∃ p ∈ b.layout.placements,
              p.scope.name = openScope expanded ∧ (p.scope.label? name).isSome) ↔
          name ≠ "VAR")) := by
  obtain ⟨number, lower, before, after⟩ := Assembly.ofSource_between above below (labelLine name)
    fun c member => (labelLine_plain identifier c member).1
  rw [assembled] at before
  rw [after, ofLine?_labelLine identifier, Option.toList_some, List.singleton_append]
  generalize upper : Content.ofLines 1 (Text.lines (above ++ ['\n'])) = contents at before
  obtain ⟨tokens, others, expanded, more, read, readMore, expands, expandsMore⟩ :=
    Assembly.parts_of_ofContents before
  refine ⟨tokens, expanded, ?_, expands, ?_⟩
  · unfold Token.scan
    rw [Token.ofLines_eq, upper, read]
  intro undefined free
  have places : (labelToken (number + 1) name).placedLabel? = some name := rfl
  have readLine : (labelContent (number + 1) name :: lower).mapM Content.token =
      .ok (labelToken (number + 1) name :: others) := by
    rw [List.mapM_cons, labelContent_token, readMore]
    rfl
  have labelled := expand_label (number + 1) identifier unmarked undefined expandsMore
  have expandsLine := Constants.expand_append_eq_ok.mpr ⟨_, _, expands, labelled, rfl⟩
  have expandsBoth := Constants.expand_append_eq_ok.mpr ⟨_, _, expands, expandsMore, rfl⟩
  have assembles (b : Assembly) :=
    Assembly.ofContents_eq_ok (a := b) (mapM_append_ok read readLine) expandsLine
  obtain ⟨program, parsed, placed, coded⟩ := (Assembly.ofContents_eq_ok
    (mapM_append_ok read readMore) expandsBoth).mp before
  have lacks := (Layout.places_of_ofProgram placed).lacks free
  constructor
  · rintro ⟨b, grows, _⟩ rfl
    obtain ⟨program', parsed', placed', _⟩ := (assembles b).mp grows
    exact Program.label_like_declaration places parsed' placed'
  · intro other
    obtain ⟨program', l', parsed', placed', coded', p, member, named, recorded⟩ :=
      Program.label_added parsed placed coded places identifier lacks other
    refine ⟨⟨l', a.words⟩, ?_, rfl, p, member, named, recorded⟩
    exact (assembles ⟨l', a.words⟩).mpr ⟨program', parsed', placed', coded'⟩

/-- A call, and the first line of the function that is called. -/
def callerAbove : List Char := "#define two 2\nCALL add two\nGOTO end\nend\nFN add n".toList

def functionBelow : List Char := "ADD,W n\nRETLW 0\nEND\n".toList

/-- In the function a label gets the name of the parameter, which still stands for its variable. -/
theorem labelLikeParameter_emits_nothing :
    ∃ a b, Assembly.ofSource (callerAbove ++ '\n' :: functionBelow) = .ok a ∧
      Assembly.ofSource (callerAbove ++ '\n' :: (labelLine "n" ++ '\n' :: functionBelow)) = .ok b ∧
      b.words = a.words ∧ a.words.length = 8 ∧
      ∃ p ∈ b.layout.placements, p.scope.name = "add" ∧ (p.scope.label? "n").isSome := by
  have above : callerAbove = _ := String.toList_ofList
  have below : functionBelow = _ := String.toList_ofList
  have facts : ∃ a, Assembly.ofSource (callerAbove ++ '\n' :: functionBelow) = .ok a ∧
      a.words.length = 8 ∧ ∀ p ∈ a.layout.placements, p.scope.name = "add" →
        p.scope.label? "n" = none := by
    rw [above, below]
    decide +kernel
  have position : ∃ tokens, Token.scan (callerAbove ++ ['\n']) = .ok tokens ∧
      "n" ∉ (Constants.empty.definitions tokens).map Prod.fst ∧
      ∃ expanded, Source.expand tokens = .ok expanded ∧ openScope expanded = "add" := by
    rw [above]
    decide +kernel
  obtain ⟨a, assembled, length, free⟩ := facts
  obtain ⟨tokens, scanned, undefined, expanded, expands, scope⟩ := position
  obtain ⟨tokens', expanded', scanned', expands', whole⟩ := label_line_emits_nothing callerAbove
    functionBelow "n" a assembled (by decide +kernel) (by decide +kernel)
  rw [scanned] at scanned'
  cases scanned'
  rw [expands] at expands'
  cases expands'
  rw [scope] at whole
  obtain ⟨b, grows, words, recorded⟩ := (whole undefined free).mpr (by decide)
  exact ⟨a, b, assembled, grows, words, length, recorded⟩

/-- Not every label may be added: one with the name of declarations is rejected. -/
theorem label_may_not_be_added :
    ¬ ∀ (above below : List Char) (name : String) (a : Assembly) (tokens expanded : List Token),
      Assembly.ofSource (above ++ '\n' :: below) = .ok a → Text.isIdentifier name = true →
      afterMarker? name.toList = none → Token.scan (above ++ ['\n']) = .ok tokens →
      Source.expand tokens = .ok expanded →
      name ∉ (Constants.empty.definitions tokens).map Prod.fst →
      (∀ p ∈ a.layout.placements, p.scope.name = openScope expanded → p.scope.label? name = none) →
      ∃ b, Assembly.ofSource (above ++ '\n' :: (labelLine name ++ '\n' :: below)) = .ok b ∧
        b.words = a.words := by
  intro whole
  have facts : ∃ a, Assembly.ofSource ("NOP".toList ++ '\n' :: "NOP".toList) = .ok a ∧
      ∀ p ∈ a.layout.placements, p.scope.name = mainName → p.scope.label? "VAR" = none := by
    decide +kernel
  have position : ∃ tokens, Token.scan ("NOP".toList ++ ['\n']) = .ok tokens ∧
      "VAR" ∉ (Constants.empty.definitions tokens).map Prod.fst ∧
      ∃ expanded, Source.expand tokens = .ok expanded ∧ openScope expanded = mainName := by
    decide +kernel
  have rejected : Assembly.ofSource ("NOP".toList ++ '\n' ::
      (labelLine "VAR" ++ '\n' :: "NOP".toList)) =
        .error ⟨⟨2, "LABEL VAR"⟩, .malformed .variableArity⟩ := by
    decide +kernel
  obtain ⟨a, assembled, free⟩ := facts
  obtain ⟨tokens, scanned, undefined, expanded, expands, scope⟩ := position
  rw [← scope] at free
  obtain ⟨b, grows, _⟩ := whole _ _ "VAR" a tokens expanded assembled (by decide +kernel)
    (by decide +kernel) scanned expands undefined free
  rw [rejected] at grows
  cases grows

end Source

end Accumulator
