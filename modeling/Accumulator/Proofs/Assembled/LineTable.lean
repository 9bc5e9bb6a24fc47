import Accumulator.Proofs.Assembled.LineOrder
import Accumulator.Proofs.Program.Sources

set_option autoImplicit false

/-!
The sources of the words of a program. A declaration and the block of words of any other instruction
are traced to the line that they come from: the words that pass the arguments of a call to the line of
the call, and the declarations of parameters to the line that opens the function.
-/

namespace Accumulator

open Source

section Blocks

/-- All that a line emits stands on that line. -/
theorem expandBody_origin (frame : Nat) (line t : Token) (member : t ∈ expandBody frame line) :
    t.origin = line.origin := by
  obtain ⟨_, rfl | ⟨mnemonic, _, operand, rfl⟩⟩ := mem_expandBody member
  · rfl
  · rfl

theorem length_passArguments (call : Token) (arguments : List String) (frame first : Nat) :
    ((arguments.zipIdx first).flatMap fun (argument, i) =>
      passArgument call argument (frame + i)).length = 2 * arguments.length := by
  induction arguments generalizing first with
  | nil => rfl
  | cons argument rest ih =>
    rw [List.zipIdx_cons, List.flatMap_cons, List.length_append, ih]
    simp [passArgument]
    omega

theorem length_expandBody {t : Token} (frame : Nat) (instruction : t.isLabel = false) :
    (expandBody frame t).length =
      if t.mnemonic = "CALL" then 2 * (t.args.length - 1) + 1 else 1 := by
  unfold expandBody
  rw [if_neg (by simp [instruction])]
  split
  · rw [List.length_append, length_passArguments, List.length_tail]
    rfl
  · rfl

/-- The origins of blocks of words: that of each line, once for every word of its block. -/
def blockOrigins (lines : List Token) (blocks : List (List Word)) : List Origin :=
  (List.zipWith (fun t block => block.map fun _ => t.origin) lines blocks).flatten

theorem origins_of_blocks (frame : Nat) {lines : List Token} {blocks : List (List Word)}
    (sizes : List.Forall₂ (fun t block => block.length = (expandBody frame t).length) lines
      blocks) :
    (lines.flatMap (expandBody frame)).map Token.origin = blockOrigins lines blocks := by
  induction sizes with
  | nil => rfl
  | @cons t block lines blocks size _ ih =>
    have here : (expandBody frame t).map Token.origin = block.map fun _ => t.origin := by
      rw [List.map_const', size, List.map_eq_replicate_iff]
      exact expandBody_origin frame t
    rw [List.flatMap_cons, List.map_append, here, ih]
    rfl

end Blocks

/-- A scope at its place that comes from the lines of a body. -/
structure Placement.Holds (p : Placement) (lines : List Token) : Prop where
  inside : ∀ t ∈ lines, t.InBody
  shape : ∃ name header params terminator,
    p.scope = Scope.ofBody name header params (lines.map Token.kept) terminator

/-- Every word of a scope stands on one of its lines. -/
theorem Placement.Holds.origin_of_token {p : Placement} {lines : List Token} (holds : p.Holds lines)
    (t : Token) (member : t ∈ p.scope.tokens) : ∃ line ∈ lines, t.origin = line.origin := by
  obtain ⟨name, header, params, terminator, shape⟩ := holds.shape
  rw [shape] at member
  rcases List.mem_append.mp member with declaration | code
  · obtain ⟨line, listed, rfl⟩ := List.mem_map.mp (List.mem_filter.mp declaration).1
    exact ⟨line, listed, line.kept_origin⟩
  · obtain ⟨kept, inside, emitted⟩ := List.mem_flatMap.mp code
    obtain ⟨line, listed, rfl⟩ := List.mem_map.mp (List.mem_filter.mp inside).1
    refine ⟨line, listed, ?_⟩
    rw [expandBody_origin _ _ t emitted, line.kept_origin]

namespace Layout

/-- The words at the addresses of a scope are arranged as its lines say, and the table traces each word
to the line that it comes from. -/
def Traces (l : Layout) (p : Placement) (lines : List Token) (words : List Word) : Prop :=
  ∃ declarations blocks, l.Arranges p lines (p.wordsIn words) declarations blocks ∧
    (List.range' p.base p.size).map l.sourceAt? =
      ((lines.filter Token.declares).map Token.origin ++
        blockOrigins (lines.filter Token.executes) blocks).map
          fun origin => some (origin, p.scope.name)

theorem Assembles.traces {l : Layout} {program : Program} {words : List Word} {p : Placement}
    {lines : List Token} (assembles : l.Assembles program words) (named : l.Named)
    (distinct : ∀ s ∈ program.scopes, (s.labels.map Prod.fst).Nodup) (member : p ∈ l.placements)
    (holds : p.Holds lines) : l.Traces p lines words := by
  obtain ⟨inside, name, header, params, terminator, shape⟩ := holds
  have places := assembles.places
  have declares := named.declares p member
  obtain ⟨declarations, blocks, arranges⟩ := Layout.arranges_of_encodes inside shape declares
    (distinct p.scope (places.scope_mem p member)) (assembles.encodes named p member)
  have tokens := (declares.bodyLines inside shape).tokens name header params terminator
  rw [← shape] at tokens
  have unlabelled : ∀ t ∈ lines.filter Token.executes, t.isLabel = false :=
    fun t member => Token.unlabelled_of_executes (List.mem_filter.mp member).2
  have sizes : List.Forall₂ (fun t block =>
      block.length = (expandBody (lines.filter Token.declares).length t).length)
      (lines.filter Token.executes) blocks := by
    apply ((List.forall₂_and_left _ _).mpr ⟨unlabelled, arranges.sizes⟩).imp
    rintro t block ⟨instruction, size⟩
    rw [size, length_expandBody _ instruction]
  refine ⟨declarations, blocks, arranges, ?_⟩
  rw [places.map_sourceAt? p member, Placement.origins, tokens, ← origins_of_blocks _ sizes,
    ← List.map_append, List.map_map, List.map_map]
  rfl

end Layout

/-- A text and the program that is assembled from it: the tokens of the text are divided into lines
and functions, and these are what the scopes at their places hold. -/
structure Assembly.Describes (text : List Char) (a : Assembly) (program : Program)
    (tokens main : List Token) (functions : List FunctionText) : Prop where
  expanded : (Token.scan text >>= Source.expand) = .ok tokens
  divides : Divides tokens main functions
  assembles : a.layout.Assembles program a.words
  named : a.layout.Named
  distinct : ∀ s ∈ program.scopes, (s.labels.map Prod.fst).Nodup
  main : a.layout.main.Holds main
  functions : List.Forall₂ (fun f p =>
    p ∈ a.layout.functions ∧ p.scope = f.scope ∧ p.Holds f.allLines) functions a.layout.functions

theorem Assembly.describes {text : List Char} {a : Assembly}
    (compiled : Assembly.ofSource text = .ok a) :
    ∃ program tokens main functions, a.Describes text program tokens main functions := by
  obtain ⟨program, source, placed, _⟩ := Assembly.ofSource_eq_ok.mp compiled
  have assembles := Assembly.assembles compiled source
  obtain ⟨tokens, expanded, parsed⟩ := Program.ofSource_eq_ok.mp source
  obtain ⟨main, functions, divides, mainScope, scopes⟩ := Program.divides parsed
  obtain ⟨mainLines, functionLines⟩ := divides.inBody
  have places := assembles.places
  refine ⟨program, tokens, main, functions, expanded, divides, assembles,
    Layout.named_of_ofProgram parsed placed, (Program.distinct parsed).2, ?_, ?_⟩
  · refine ⟨fun t line => (mainLines t line).2, mainName, none, [], none, ?_⟩
    rw [places.main, mainScope]
  · apply forall₂_of_map_eq (places.functions.trans scopes).symm
    intro f listed p placed shape
    refine ⟨placed, shape.symm, ?_, f.name, some f.header, f.params, some f.terminator, shape.symm⟩
    apply FunctionText.forall_allLines Token.InBody
    · exact fun _ => .inl rfl
    · exact fun t line => (functionLines f listed t line).2

section

variable {text : List Char} {a : Assembly} {program : Program} {tokens main : List Token}
  {functions : List FunctionText}

theorem Assembly.Describes.readFrom
    (describes : a.Describes text program tokens main functions) (t : Token) (member : t ∈ tokens) :
    t.ReadFrom text := by
  obtain ⟨scanned, read, expands⟩ := bind_eq_ok.mp describes.expanded
  exact Token.readFrom_of_expanded read expands t member

/-- Every word of a scope stands on a line of the text. -/
theorem Assembly.Describes.standsIn
    (describes : a.Describes text program tokens main functions) (p : Placement)
    (member : p ∈ a.layout.placements) (t : Token) (word : t ∈ p.scope.tokens) :
    ∃ line, t.origin.StandsIn text line := by
  obtain ⟨mainLines, functionLines⟩ := describes.divides.inBody
  have stands : ∀ other ∈ tokens, ∃ line, other.origin.StandsIn text line := by
    intro other listed
    obtain ⟨line, _, stands, _⟩ := describes.readFrom other listed
    exact ⟨line, stands⟩
  rcases List.mem_cons.mp member with rfl | function
  · obtain ⟨line, listed, same⟩ := describes.main.origin_of_token t word
    rw [same]
    exact stands line (mainLines line listed).1
  · obtain ⟨f, listed, _, _, holds⟩ := forall₂_exists_of_mem describes.functions.flip p function
    have each : ∀ line ∈ f.allLines, ∃ source, line.origin.StandsIn text source := by
      -- The declarations of the parameters have the origin of the header.
      apply FunctionText.forall_allLines fun line => ∃ source, line.origin.StandsIn text source
      · exact fun _ => stands f.header (describes.divides.partOf f listed).header
      · exact fun line inside => stands line (functionLines f listed line inside).1
    obtain ⟨line, inside, same⟩ := holds.origin_of_token t word
    rw [same]
    exact each line inside

end

/-- The two ways to find the scope of an address agree: the one by the bounds of the scopes, and the one
by the table of sources. They know of all addresses of the program but that of the halt word behind the
main scope, and the scopes and the halt word divide the addresses among them. Each entry of the table has
the number and the text of a line of the source, and it is the line that the word at its address comes
from. -/
theorem word_sources_agree (text : List Char) (a : Assembly)
    (compiled : Assembly.ofSource text = .ok a) :
    (∀ address, (a.layout.scopeAt? address).map (fun p => p.scope.name) =
      (a.layout.sourceAt? address).map Prod.snd) ∧
    (∀ address, a.layout.scopeAt? address = none ↔
      address = 0 ∨ address = a.layout.main.size + 1 ∨ a.layout.size < address) ∧
    (∀ address, a.layout.sourceAt? address = none ↔
      address = 0 ∨ address = a.layout.main.size + 1 ∨ a.layout.size < address) ∧
    a.layout.Tiles ∧ a.words.length = a.layout.size ∧
    (∀ address origin name, a.layout.sourceAt? address = some (origin, name) →
      ∃ line, origin.StandsIn text line) ∧
    ∃ tokens main functions, (Token.scan text >>= Source.expand) = .ok tokens ∧
      (∀ t ∈ tokens, t.ReadFrom text) ∧ Divides tokens main functions ∧
      a.layout.Traces a.layout.main main a.words ∧
      List.Forall₂ (fun f p => p.scope.name = f.name ∧ a.layout.Traces p f.allLines a.words)
        functions a.layout.functions := by
  obtain ⟨program, tokens, main, functions, describes⟩ := Assembly.describes compiled
  have assembles := describes.assembles
  have places := assembles.places
  have traces : ∀ p ∈ a.layout.placements, ∀ lines, p.Holds lines →
      a.layout.Traces p lines a.words :=
    fun p member lines holds => assembles.traces describes.named describes.distinct member holds
  refine ⟨places.sources_agree, places.scopeAt?_eq_none_iff, places.sourceAt?_eq_none_iff,
    places.tiles, assembles.length, ?_, tokens, main, functions, describes.expanded,
    describes.readFrom, describes.divides, traces _ List.mem_cons_self main describes.main, ?_⟩
  · intro address origin name found
    obtain ⟨p, member, t, word, rfl⟩ := places.origin_of_source address origin name found
    exact describes.standsIn p member t word
  · apply describes.functions.imp
    rintro f p ⟨function, shape, holds⟩
    refine ⟨congrArg Scope.name shape, ?_⟩
    exact traces p (List.mem_cons_of_mem _ function) f.allLines holds

/-- An empty function between two others, and a call whose argument is passed by words of its own. -/
def emptyBetween : List Char :=
  ("CALL show 1
FN show n ; one parameter
VAR s
RET
END
FN empty
END
" ++
    "FN last
RET
END
").toList

/-- The words that pass the argument are traced to the call, and the declaration of the parameter to the
header. The empty function begins where the one behind it does, and owns nothing. -/
theorem emptyBetween_sources :
    ∃ a, Assembly.ofSource emptyBetween = .ok a ∧
      a.layout.placements.map (fun p => (p.scope.name, p.base, p.size)) =
        [("__main__", 1, 3), ("show", 5, 3), ("empty", 8, 0), ("last", 8, 1)] ∧
      a.layout.sources.map (fun entry => (entry.1, entry.2.1.line)) =
        [(1, 1), (2, 1), (3, 1), (5, 2), (6, 3), (7, 4), (8, 9)] ∧
      (∃ line, Origin.StandsIn ⟨2, "FN show n"⟩ emptyBetween line) ∧
      (a.layout.scopeAt? 8).map (fun p => p.scope.name) = some "last" ∧
      a.layout.scopeAt? 4 = none ∧ a.layout.sourceAt? 9 = none ∧ a.layout.Tiles := by
  have characters : emptyBetween = _ :=
    Text.toList_append_of String.toList_ofList String.toList_ofList
  have facts : ∃ a, Assembly.ofSource emptyBetween = .ok a ∧
      a.layout.placements.map (fun p => (p.scope.name, p.base, p.size)) =
        [("__main__", 1, 3), ("show", 5, 3), ("empty", 8, 0), ("last", 8, 1)] ∧
      a.layout.sources.map (fun entry => (entry.1, entry.2.1.line)) =
        [(1, 1), (2, 1), (3, 1), (5, 2), (6, 3), (7, 4), (8, 9)] ∧
      a.layout.sourceAt? 5 = some (⟨2, "FN show n"⟩, "show") ∧
      a.layout.sourceAt? 8 = some (⟨9, "RET"⟩, "last") ∧
      a.layout.main.size = 3 ∧ a.layout.size = 8 := by
    rw [characters]
    decide +kernel
  obtain ⟨a, compiled, placed, sources, parameter, last, main, size⟩ := facts
  obtain ⟨agree, unowned, unlisted, tiles, _, stands, _⟩ :=
    word_sources_agree emptyBetween a compiled
  have owner := agree 8
  rw [last] at owner
  refine ⟨a, compiled, placed, sources, stands 5 _ _ parameter, owner, ?_, ?_, tiles⟩
  · apply (unowned 4).mpr
    omega
  · apply (unlisted 9).mpr
    omega

end Accumulator
