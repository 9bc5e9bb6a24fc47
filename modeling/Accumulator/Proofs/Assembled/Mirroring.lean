import Accumulator.Proofs.Assembled.LineOrder
import Accumulator.Proofs.Program.WellNested

set_option autoImplicit false

/-!
Programs that differ in their names, and in labels that nothing needs, have the same words. Names are
replaced by a map that keeps them apart; numbers stay, since none of them is a name.
-/

namespace Accumulator

open Source

/-- A map of names that keeps them apart. The name of the main scope is fixed. -/
structure Renaming where
  map : String → String
  identifier : ∀ text, Text.isIdentifier text = true → Text.isIdentifier (map text) = true
  injective : ∀ first second, Text.isIdentifier first = true → Text.isIdentifier second = true →
    map first = map second → first = second
  main : map mainName = mainName

namespace Renaming

/-- A text under a renaming, which leaves all that is no name as it is. -/
def name (r : Renaming) (text : String) : String :=
  if Text.isIdentifier text then r.map text else text

/-- The renaming that changes nothing. -/
def identity : Renaming := ⟨id, fun _ => id, fun _ _ _ _ => id, rfl⟩

theorem name_identity (text : String) : identity.name text = text :=
  ite_self text

theorem name_of_other (r : Renaming) {text : String} (other : Text.isIdentifier text = false) :
    r.name text = text := by
  unfold name
  rw [if_neg (by rw [other]; exact Bool.false_ne_true)]

theorem isIdentifier_name (r : Renaming) (text : String) :
    Text.isIdentifier (r.name text) = Text.isIdentifier text := by
  by_cases identifier : Text.isIdentifier text = true
  · unfold name
    rw [if_pos identifier, identifier]
    exact r.identifier text identifier
  · rw [r.name_of_other (Bool.eq_false_iff.mpr identifier)]

theorem name_injective (r : Renaming) : Function.Injective r.name := by
  intro first second same
  have kinds := congrArg Text.isIdentifier same
  rw [r.isIdentifier_name, r.isIdentifier_name] at kinds
  by_cases identifier : Text.isIdentifier first = true
  · have other : Text.isIdentifier second = true := kinds ▸ identifier
    unfold name at same
    rw [if_pos identifier, if_pos other] at same
    exact r.injective first second identifier other same
  · have other := Bool.eq_false_iff.mpr identifier
    rw [r.name_of_other other, r.name_of_other (kinds ▸ other)] at same
    exact same

theorem name_main (r : Renaming) : r.name mainName = mainName := by
  have identifier : Text.isIdentifier mainName = true := by decide +kernel
  unfold name
  rw [if_pos identifier, r.main]

end Renaming

theorem Renaming.name_of_number (r : Renaming) {text : String} (shaped : numberShaped text = true) :
    r.name text = text :=
  r.name_of_other (not_isIdentifier_of_numberShaped shaped)

theorem Renaming.numberShaped_name (r : Renaming) (text : String) :
    numberShaped (r.name text) = numberShaped text := by
  by_cases shaped : numberShaped text = true
  · rw [r.name_of_number shaped]
  · by_cases again : numberShaped (r.name text) = true
    · -- A text that is not changed keeps its shape, and a name that is changed has none.
      have other := not_isIdentifier_of_numberShaped again
      rw [r.isIdentifier_name] at other
      rw [r.name_of_other other]
    · rw [Bool.eq_false_iff.mpr shaped, Bool.eq_false_iff.mpr again]

section Relations

variable (r : Renaming)

/-- A token has the mnemonic of another one, and its arguments under a renaming. -/
structure Source.Token.Mirrors (t t' : Token) : Prop where
  mnemonic : t'.mnemonic = t.mnemonic
  args : t'.args = t.args.map r.name

/-- A scope has the words of another one under a renaming, and all of its labels. -/
structure Scope.Mirrors (s s' : Scope) : Prop where
  name : s'.name = r.name s.name
  params : s'.params.length = s.params.length
  tokens : List.Forall₂ (Token.Mirrors r) s.tokens s'.tokens
  labels : ∀ name offset, s.label? name = some offset → s'.label? (r.name name) = some offset

structure Placement.Mirrors (p p' : Placement) : Prop where
  scope : p.scope.Mirrors r p'.scope
  base : p'.base = p.base

structure Layout.Mirrors (l l' : Layout) : Prop where
  main : l.main.Mirrors r l'.main
  functions : List.Forall₂ (Placement.Mirrors r) l.functions l'.functions

end Relations

variable {r : Renaming}

theorem Source.Token.Mirrors.isDeclaration {t t' : Token} (mirrors : t.Mirrors r t') :
    t'.isDeclaration = t.isDeclaration := by
  unfold Token.isDeclaration
  rw [mirrors.mnemonic]

section Words

theorem Scope.Mirrors.declaresAt_iff {s s' : Scope} (mirrors : s.Mirrors r s') (rank : Nat)
    (name : String) : s'.DeclaresAt rank (r.name name) ↔ s.DeclaresAt rank name := by
  constructor
  · rintro ⟨t', found, declaration, args⟩
    obtain ⟨t, placed, same⟩ := forall₂_getElem? mirrors.tokens.flip rank t' found
    refine ⟨t, placed, same.isDeclaration ▸ declaration, ?_⟩
    rw [same.args] at args
    exact List.map_injective_iff.mpr r.name_injective args
  · rintro ⟨t, found, declaration, args⟩
    obtain ⟨t', placed, same⟩ := forall₂_getElem? mirrors.tokens rank t found
    refine ⟨t', placed, same.isDeclaration.trans declaration, ?_⟩
    rw [same.args, args, List.map_singleton]

theorem Placement.Mirrors.denotes {p p' : Placement} (mirrors : p.Mirrors r p') {text : String}
    {n : Nat} (denotes : p.Denotes text n) : p'.Denotes (r.name text) n := by
  cases denotes with
  | number _ shaped value fits =>
    rw [r.name_of_number shaped]
    exact .number n shaped value fits
  | declaration rank name declared =>
    exact .declaration rank (r.numberShaped_name text ▸ name)
      ((mirrors.scope.declaresAt_iff rank text).mpr declared)
  | label offset name undeclared placed =>
    rw [← mirrors.base]
    refine .label offset (r.numberShaped_name text ▸ name) ?_ (mirrors.scope.labels text offset placed)
    intro rank declared
    exact undeclared rank ((mirrors.scope.declaresAt_iff rank text).mp declared)

theorem Layout.Mirrors.carries {l l' : Layout} (mirrors : l.Mirrors r l') {p p' : Placement}
    (here : p.Mirrors r p') {args : List String} {operation : Operation} {n : Nat}
    (carries : l.Carries p args operation n) : l'.Carries p' (args.map r.name) operation n := by
  cases carries with
  | nothing _ free bare => exact .nothing _ free (by rw [bare, List.map_nil])
  | callee function given q call member named arity =>
    obtain ⟨q', inside, same⟩ := forall₂_exists_of_mem mirrors.functions q member
    rw [call, List.map_cons, ← same.base]
    refine .callee (r.name function) (given.map r.name) q' rfl inside ?_ ?_
    · rw [same.scope.name, named]
    · rw [same.scope.params, arity, List.length_map]
  | target name offset jump placed =>
    rw [jump, List.map_singleton, ← here.base]
    exact .target (r.name name) offset rfl (here.scope.labels name offset placed)
  | operand _ taken notCall notGoto text _ single denotes =>
    rw [single, List.map_singleton]
    exact .operand _ taken notCall notGoto (r.name text) n rfl (here.denotes denotes)

theorem Layout.Mirrors.encodes {l l' : Layout} (mirrors : l.Mirrors r l') {p p' : Placement}
    (here : p.Mirrors r p') {t t' : Token} (token : t.Mirrors r t') {w : Word}
    (encodes : l.Encodes p t.mnemonic t.args w) : l'.Encodes p' t'.mnemonic t'.args w := by
  obtain ⟨i, n, known, rfl, carries⟩ := encodes
  refine ⟨i, n, token.mnemonic ▸ known, rfl, ?_⟩
  rw [token.args]
  exact mirrors.carries here carries

namespace Layout

variable {l : Layout} {program : Program}

/-- The words of a scope encode its tokens. -/
def Spells (l : Layout) (p : Placement) (words : List Word) : Prop :=
  List.Forall₂ (fun t w => l.Encodes p t.mnemonic t.args w) p.scope.tokens words

theorem Mirrors.spells {l' : Layout} (mirrors : l.Mirrors r l') {p p' : Placement}
    (here : p.Mirrors r p') {words : List Word} (spells : l.Spells p words) :
    l'.Spells p' words := by
  apply forall₂_transport _ here.scope.tokens spells
  intro t t' w token encodes
  exact mirrors.encodes here token encodes

theorem Named.spells_unique (named : l.Named) (p : Placement) (member : p ∈ l.placements)
    {words others : List Word} (spells : l.Spells p words) (also : l.Spells p others) :
    words = others := by
  refine List.right_unique_forall₂' ?_ spells also
  intro t w w' encodes encodes'
  obtain ⟨e, encoded, linked⟩ := (named.encode_iff p member t w).mpr encodes
  obtain ⟨e', encoded', linked'⟩ := (named.encode_iff p member t w').mpr encodes'
  rw [encoded] at encoded'
  cases encoded'
  rw [linked] at linked'
  exact Except.ok.inj linked'

/-- The words of a program fall into those of its scopes. -/
theorem Assembles.spelled {words : List Word} (assembles : l.Assembles program words)
    (named : l.Named) : ∃ main functions, l.Spells l.main main ∧
      List.Forall₂ l.Spells l.functions functions ∧
      words = main ++ Word.halt :: functions.flatten := by
  refine ⟨l.main.wordsIn words, l.functions.map fun p => p.wordsIn words, ?_, ?_, ?_⟩
  · exact assembles.encodes named l.main List.mem_cons_self
  · rw [List.forall₂_map_right_iff, List.forall₂_same]
    exact fun p member => assembles.encodes named p (List.mem_cons_of_mem _ member)
  · rw [← List.flatMap_def]
    exact assembles.words_eq

/-- The words that encode the tokens of the scopes are the code of the program. -/
theorem Named.code_of_spells (named : l.Named) (places : l.Places program)
    (formed : ∀ s ∈ program.scopes, s.Formed) {main : List Word} {functions : List (List Word)}
    (first : l.Spells l.main main) (rest : List.Forall₂ l.Spells l.functions functions) :
    l.code = .ok (main ++ Word.halt :: functions.flatten) := by
  have each : ∀ p ∈ l.placements, ∀ t ∈ p.scope.tokens, ∃ w, l.Encodes p t.mnemonic t.args w := by
    intro p member t token
    have spelled : ∃ words, l.Spells p words := by
      rcases List.mem_cons.mp member with rfl | function
      · exact ⟨main, first⟩
      · obtain ⟨words, _, spells⟩ := forall₂_exists_of_mem rest p function
        exact ⟨words, spells⟩
    obtain ⟨words, spells⟩ := spelled
    obtain ⟨w, _, encodes⟩ := forall₂_exists_of_mem spells t token
    exact ⟨w, encodes⟩
  obtain ⟨words, coded⟩ := named.code_of_encodes each
  have assembles : l.Assembles program words := ⟨places, formed, coded⟩
  obtain ⟨main', functions', first', rest', rfl⟩ := assembles.spelled named
  have same : main' = main := named.spells_unique l.main List.mem_cons_self first' first
  have others : List.Forall₂ Eq functions' functions := by
    apply forall₂_transport _ rest' (forall₂_mem rest)
    rintro p words' words spells' ⟨member, _, spells⟩
    exact named.spells_unique p (List.mem_cons_of_mem _ member) spells' spells
  rw [List.forall₂_eq_eq_eq] at others
  rw [coded, same, others]

end Layout

end Words

section Layouts

theorem declareVariable_mirrors {t t' : Token} (mirrors : t.Mirrors r t') {known vars : List String}
    (declared : declareVariable known t = .ok vars) :
    declareVariable (known.map r.name) t' = .ok (vars.map r.name) := by
  obtain ⟨name, args, identifier, fresh, rfl⟩ := declareVariable_eq_ok.mp declared
  rw [declareVariable_eq_ok]
  refine ⟨r.name name, ?_, ?_, ?_, ?_⟩
  · rw [mirrors.args, args, List.map_singleton]
  · rw [r.isIdentifier_name, identifier]
  · rwa [List.mem_map_of_injective r.name_injective]
  · rw [List.map_append, List.map_singleton]

theorem foldlM_declareVariable_mirrors {ts ts' : List Token}
    (mirrors : List.Forall₂ (Token.Mirrors r) ts ts') {known vars : List String}
    (declared : ts.foldlM declareVariable known = .ok vars) :
    ts'.foldlM declareVariable (known.map r.name) = .ok (vars.map r.name) := by
  induction mirrors generalizing known with
  | nil =>
    rw [List.foldlM_nil, pure_eq_ok] at declared
    rw [declared]
    rfl
  | cons first _ ih =>
    rw [List.foldlM_cons, bind_eq_ok] at declared ⊢
    obtain ⟨next, here, later⟩ := declared
    exact ⟨next.map r.name, declareVariable_mirrors first here, ih later⟩

theorem Scope.Mirrors.size {s s' : Scope} (mirrors : s.Mirrors r s') : s'.size = s.size :=
  mirrors.tokens.length_eq.symm

theorem Scope.Mirrors.vars {s s' : Scope} (mirrors : s.Mirrors r s') {vars : List String}
    (declared : s.vars = .ok vars) : s'.vars = .ok (vars.map r.name) := by
  have declarations : List.Forall₂ (Token.Mirrors r) (s.tokens.filter Token.isDeclaration)
      (s'.tokens.filter Token.isDeclaration) := by
    refine List.rel_filter ?_ mirrors.tokens
    intro t t' same
    simp only [same.isDeclaration]
  exact foldlM_declareVariable_mirrors declarations declared

theorem placeFrom_mirrors {scopes scopes' : List Scope}
    (mirrors : List.Forall₂ (Scope.Mirrors r) scopes scopes') {base : Nat} {ps : List Placement}
    (placed : placeFrom base scopes = .ok ps) :
    ∃ ps', placeFrom base scopes' = .ok ps' ∧ List.Forall₂ (Placement.Mirrors r) ps ps' := by
  induction mirrors generalizing base ps with
  | nil =>
    cases placed
    exact ⟨[], rfl, .nil⟩
  | @cons s s' scopes scopes' first _ ih =>
    unfold placeFrom at placed
    simp only [bind_eq_ok, pure_eq_ok] at placed
    obtain ⟨vars, declared, others, placed, rfl⟩ := placed
    obtain ⟨others', placed', rest⟩ := ih placed
    refine ⟨⟨s', base, vars.map r.name⟩ :: others', ?_, .cons ⟨first, rfl⟩ rest⟩
    unfold placeFrom
    simp only [bind_eq_ok, pure_eq_ok]
    exact ⟨_, first.vars declared, others', first.size ▸ placed', rfl⟩

theorem Layout.ofProgram_mirrors {program program' : Program}
    (main : program.main.Mirrors r program'.main)
    (functions : List.Forall₂ (Scope.Mirrors r) program.functions program'.functions) {l : Layout}
    (placed : Layout.ofProgram program = .ok l) :
    ∃ l', Layout.ofProgram program' = .ok l' ∧ l.Mirrors r l' := by
  unfold Layout.ofProgram at placed
  simp only [bind_eq_ok, pure_eq_ok] at placed
  obtain ⟨vars, declared, ps, placed, rfl⟩ := placed
  obtain ⟨ps', placed', rest⟩ := placeFrom_mirrors functions placed
  refine ⟨⟨⟨program'.main, 1, vars.map r.name⟩, ps'⟩, ?_, ⟨main, rfl⟩, rest⟩
  unfold Layout.ofProgram
  simp only [bind_eq_ok, pure_eq_ok]
  exact ⟨_, main.vars declared, ps', main.size ▸ placed', rfl⟩

end Layouts

section Lines

/-- Lines have the instructions of others under a renaming, and at least their labels. -/
inductive Mirrored (r : Renaming) : List Token → List Token → Prop
  | nil : Mirrored r [] []
  | instruction (t t' : Token) (lines lines' : List Token) (first : t.kind = .instruction)
      (second : t'.kind = .instruction) (mirrors : t.Mirrors r t') (rest : Mirrored r lines lines') :
      Mirrored r (t :: lines) (t' :: lines')
  | label (t t' : Token) (name : String) (lines lines' : List Token)
      (first : t.placedLabel? = some name) (second : t'.placedLabel? = some (r.name name))
      (rest : Mirrored r lines lines') : Mirrored r (t :: lines) (t' :: lines')
  | added (t' : Token) (name : String) (lines lines' : List Token)
      (places : t'.placedLabel? = some name) (rest : Mirrored r lines lines') :
      Mirrored r lines (t' :: lines')

namespace Mirrored

variable {lines lines' : List Token}

/-- Lines correspond that a test picks, if it picks no labels and tells no mirrored instructions
apart. -/
theorem picked (mirrored : Mirrored r lines lines') {p : Token → Bool}
    (labels : ∀ (t : Token) (name : String), t.placedLabel? = some name → p t = false)
    (instructions : ∀ t t' : Token, t.kind = .instruction → t'.kind = .instruction →
      t.Mirrors r t' → p t = p t') :
    List.Forall₂ (Token.Mirrors r) (lines.filter p) (lines'.filter p) := by
  induction mirrored with
  | nil => exact .nil
  | instruction t t' _ _ first second mirrors _ ih =>
    rw [List.filter_cons, List.filter_cons, instructions t t' first second mirrors]
    split
    · exact .cons mirrors ih
    · exact ih
  | label t t' name _ _ first second _ ih =>
    rwa [List.filter_cons, List.filter_cons, labels t name first, labels t' _ second]
  | added t' name _ _ places _ ih => rwa [List.filter_cons, labels t' name places]

theorem declares (mirrored : Mirrored r lines lines') :
    List.Forall₂ (Token.Mirrors r) (lines.filter Token.declares)
      (lines'.filter Token.declares) := by
  apply mirrored.picked
  · exact fun t name places => (Token.idle_of_placedLabel places).1
  · intro t t' first second mirrors
    rw [(Token.instruction_cases first).2.1, (Token.instruction_cases second).2.1,
      mirrors.isDeclaration]

theorem executes (mirrored : Mirrored r lines lines') :
    List.Forall₂ (Token.Mirrors r) (lines.filter Token.executes)
      (lines'.filter Token.executes) := by
  apply mirrored.picked
  · exact fun t name places => (Token.idle_of_placedLabel places).2
  · intro t t' first second mirrors
    rw [(Token.instruction_cases first).2.2, (Token.instruction_cases second).2.2,
      mirrors.isDeclaration]

/-- A label stands between lines that correspond to those around it. -/
theorem split (mirrored : Mirrored r lines lines') {before after : List Token} {t : Token}
    {name : String} (here : lines = before ++ t :: after) (places : t.placedLabel? = some name) :
    ∃ before' t' after', lines' = before' ++ t' :: after' ∧
      t'.placedLabel? = some (r.name name) ∧ Mirrored r before before' := by
  induction mirrored generalizing before with
  | nil => simp at here
  | instruction s s' lines lines' first second mirrors rest ih =>
    cases before with
    | nil =>
      cases here
      rw [Token.placedLabel?_of_instruction first] at places
      cases places
    | cons other before =>
      cases here
      obtain ⟨before', t', after', rfl, places', inside⟩ := ih rfl
      exact ⟨s' :: before', t', after', rfl, places',
        .instruction _ s' before before' first second mirrors inside⟩
  | label s s' label lines lines' first second rest ih =>
    cases before with
    | nil =>
      cases here
      rw [first] at places
      cases places
      exact ⟨[], s', lines', rfl, second, .nil⟩
    | cons other before =>
      cases here
      obtain ⟨before', t', after', rfl, places', inside⟩ := ih rfl
      exact ⟨s' :: before', t', after', rfl, places',
        .label _ s' label before before' first second inside⟩
  | added s' label lines lines' first rest ih =>
    obtain ⟨before', t', after', rfl, places', inside⟩ := ih here
    exact ⟨s' :: before', t', after', rfl, places', .added s' label before before' first inside⟩

end Mirrored

theorem passArguments_mirror {call call' : Token} (frame first : Nat) (arguments : List String) :
    List.Forall₂ (Token.Mirrors r)
      ((arguments.zipIdx first).flatMap fun (argument, i) => passArgument call argument (frame + i))
      (((arguments.map r.name).zipIdx first).flatMap fun (argument, i) =>
        passArgument call' argument (frame + i)) := by
  induction arguments generalizing first with
  | nil => exact .nil
  | cons argument rest ih =>
    rw [List.map_cons, List.zipIdx_cons, List.zipIdx_cons, List.flatMap_cons, List.flatMap_cons]
    refine .cons ⟨?_, rfl⟩ (.cons ⟨rfl, ?_⟩ (ih (first + 1)))
    · unfold Token.derive
      rw [r.isIdentifier_name]
    · change [toString (frame + first)] = [toString (frame + first)].map r.name
      rw [List.map_singleton, r.name_of_number (numberShaped_toString _)]

theorem Source.Token.Mirrors.expandBody {t t' : Token} (mirrors : t.Mirrors r t')
    (first : t.isLabel = false) (second : t'.isLabel = false) (frame : Nat) :
    List.Forall₂ (Token.Mirrors r) (expandBody frame t) (Accumulator.expandBody frame t') := by
  unfold Accumulator.expandBody
  rw [first, second, mirrors.mnemonic]
  simp only [Bool.false_eq_true, ↓reduceIte]
  split
  · refine List.rel_append ?_ (.cons mirrors .nil)
    rw [mirrors.args, ← List.map_tail]
    exact passArguments_mirror frame 1 t.args.tail
  · exact .cons mirrors .nil

theorem flatMap_expandBody_mirrors {code code' : List Token} (frame : Nat)
    (mirrors : List.Forall₂ (Token.Mirrors r) code code')
    (first : ∀ t ∈ code, t.executes = true) (second : ∀ t ∈ code', t.executes = true) :
    List.Forall₂ (Token.Mirrors r) (code.flatMap (expandBody frame))
      (code'.flatMap (expandBody frame)) := by
  induction mirrors with
  | nil => exact .nil
  | cons here _ ih =>
    rw [List.flatMap_cons, List.flatMap_cons]
    refine List.rel_append ?_ (ih ?_ ?_)
    · exact here.expandBody (Token.unlabelled_of_executes (first _ List.mem_cons_self))
        (Token.unlabelled_of_executes (second _ List.mem_cons_self)) frame
    · exact fun t member => first t (List.mem_cons_of_mem _ member)
    · exact fun t member => second t (List.mem_cons_of_mem _ member)

theorem Mirrored.code {lines lines' : List Token} (mirrored : Mirrored r lines lines')
    (frame : Nat) :
    List.Forall₂ (Token.Mirrors r) ((lines.filter Token.executes).flatMap (expandBody frame))
      ((lines'.filter Token.executes).flatMap (expandBody frame)) :=
  flatMap_expandBody_mirrors frame mirrored.executes
    (fun _ member => (List.mem_filter.mp member).2) (fun _ member => (List.mem_filter.mp member).2)

/-- Lines that mirror others lead to a scope that mirrors theirs. -/
theorem Mirrored.scope {lines lines' : List Token} (mirrored : Mirrored r lines lines')
    (body : BodyLines lines) (body' : BodyLines lines') {name name' : String}
    {header header' terminator terminator' : Option Token} {params params' : List String}
    (named : name' = r.name name) (arity : params'.length = params.length)
    (distinct : ((Scope.ofBody name header params (lines.map Token.kept) terminator).labels.map
      Prod.fst).Nodup)
    (distinct' : ((Scope.ofBody name' header' params' (lines'.map Token.kept) terminator').labels.map
      Prod.fst).Nodup) :
    (Scope.ofBody name header params (lines.map Token.kept) terminator).Mirrors r
      (Scope.ofBody name' header' params' (lines'.map Token.kept) terminator') := by
  have frame := mirrored.declares.length_eq
  refine ⟨named, arity, ?_, ?_⟩
  · rw [body.tokens, body'.tokens, ← frame]
    exact List.rel_append mirrored.declares (mirrored.code _)
  · intro label offset found
    obtain ⟨t, member, places⟩ := Scope.placed_of_label body.inside label offset found
    obtain ⟨before, after, here⟩ := List.append_of_mem member
    have listed := body.label_mem name header params terminator before after t label here places
    rw [Scope.label?_of_mem distinct label _ listed] at found
    cases found
    obtain ⟨before', t', after', here', places', inside⟩ := mirrored.split here places
    have listed' := body'.label_mem name' header' params' terminator' before' after' t' _ here' places'
    rw [Scope.label?_of_mem distinct' _ _ listed', ← frame, (inside.code _).length_eq]

end Lines

section Functions

/-- A function has the header of another one under a renaming, and lines that mirror its own. -/
structure FunctionText.Mirrors (r : Renaming) (f f' : FunctionText) : Prop where
  header : f'.header.args = f.header.args.map r.name
  lines : Mirrored r f.lines f'.lines

namespace FunctionText.Mirrors

variable {f f' : FunctionText}

theorem name (mirrors : f.Mirrors r f') : f'.name = r.name f.name := by
  unfold FunctionText.name
  rw [mirrors.header]
  cases f.header.args with
  | nil =>
    rw [List.map_nil, List.headD_nil]
    exact (r.name_of_other (by decide)).symm
  | cons name params => rfl

theorem params (mirrors : f.Mirrors r f') : f'.params = f.params.map r.name := by
  unfold FunctionText.params
  rw [mirrors.header, List.map_tail]

theorem allLines (mirrors : f.Mirrors r f') : Mirrored r f.allLines f'.allLines := by
  unfold FunctionText.allLines
  rw [mirrors.params]
  generalize f.params = params
  induction params with
  | nil => exact mirrors.lines
  | cons param params ih => exact .instruction _ _ _ _ rfl rfl ⟨rfl, rfl⟩ ih

end FunctionText.Mirrors

namespace WellNested

variable {tokens main : List Token} {functions : List FunctionText}

/-- Where no label has the name of a declaration, no line is hoisted for its label. -/
theorem bodyLines (nested : WellNested tokens main functions)
    (plain : ∀ t ∈ tokens, t.placedLabel? ≠ some "VAR") :
    BodyLines main ∧ ∀ f ∈ functions, BodyLines f.allLines := by
  obtain ⟨mainLines, functionLines⟩ := nested.divides.inBody
  refine ⟨⟨fun t line => (mainLines t line).2, fun t line => plain t (mainLines t line).1⟩, ?_⟩
  intro f listed
  constructor
  · exact f.inBody_allLines fun t line => (functionLines f listed t line).2
  · apply FunctionText.forall_allLines fun t => t.placedLabel? ≠ some "VAR"
    · exact fun _ => nofun
    · exact fun t line => plain t (functionLines f listed t line).1

/-- In a program that is laid out, no label has the name of a declaration. -/
theorem plain_of_layout (nested : WellNested tokens main functions) {l : Layout}
    (placed : Layout.ofProgram (Program.ofParts main functions) = .ok l) :
    ∀ t ∈ tokens, t.placedLabel? ≠ some "VAR" := by
  have places := Layout.places_of_ofProgram placed
  have named := Layout.named_of_ofProgram nested.program placed
  obtain ⟨mainLines, functionLines⟩ := nested.divides.inBody
  intro t member isVar
  rcases nested.divides.label_mem member isVar with inMain | ⟨f, listed, line⟩
  · have declares := named.declares l.main List.mem_cons_self
    have body := declares.bodyLines (fun t line => (mainLines t line).2) places.main
    exact body.plain t inMain isVar
  · have scope : f.scope ∈ l.functions.map Placement.scope := by
      rw [places.functions]
      exact List.mem_map_of_mem listed
    obtain ⟨p, function, shape⟩ := List.mem_map.mp scope
    have declares := named.declares p (List.mem_cons_of_mem _ function)
    have inside := f.inBody_allLines fun t line => (functionLines f listed t line).2
    have body := declares.bodyLines inside shape
    exact body.plain t (List.mem_append_right _ line) isVar

/-- Tokens that are divided into lines and functions which mirror those of a program with code lead
to a program with the same code. -/
theorem mirrored_code {tokens' main' : List Token} {functions' : List FunctionText}
    (nested : WellNested tokens main functions) (nested' : WellNested tokens' main' functions')
    (mainMirrors : Mirrored r main main')
    (mirrors : List.Forall₂ (FunctionText.Mirrors r) functions functions')
    (plain' : ∀ t ∈ tokens', t.placedLabel? ≠ some "VAR") {l : Layout} {words : List Word}
    (placed : Layout.ofProgram (Program.ofParts main functions) = .ok l)
    (coded : l.code = .ok words) :
    ∃ l', Layout.ofProgram (Program.ofParts main' functions') = .ok l' ∧ l'.code = .ok words := by
  obtain ⟨body, bodies⟩ := nested.bodyLines (nested.plain_of_layout placed)
  obtain ⟨body', bodies'⟩ := nested'.bodyLines plain'
  have distinct := (Program.distinct nested.program).2
  have distinct' := (Program.distinct nested'.program).2
  have mainScope : (Program.ofParts main functions).main.Mirrors r
      (Program.ofParts main' functions').main :=
    mainMirrors.scope body body' r.name_main.symm rfl (distinct _ List.mem_cons_self)
      (distinct' _ List.mem_cons_self)
  have scopes : List.Forall₂ (Scope.Mirrors r) (Program.ofParts main functions).functions
      (Program.ofParts main' functions').functions := by
    unfold Program.ofParts
    rw [List.forall₂_map_left_iff, List.forall₂_map_right_iff]
    apply (forall₂_mem mirrors).imp
    rintro f f' ⟨listed, listed', same⟩
    refine same.allLines.scope (bodies f listed) (bodies' f' listed') same.name ?_
      (distinct f.scope ?_) (distinct' f'.scope ?_)
    · rw [same.params, List.length_map]
    · exact List.mem_cons_of_mem _ (List.mem_map_of_mem listed)
    · exact List.mem_cons_of_mem _ (List.mem_map_of_mem listed')
  obtain ⟨l', placed', layouts⟩ := Layout.ofProgram_mirrors mainScope scopes placed
  have named := Layout.named_of_ofProgram nested.program placed
  have named' := Layout.named_of_ofProgram nested'.program placed'
  have assembles : l.Assembles (Program.ofParts main functions) words :=
    ⟨Layout.places_of_ofProgram placed, Program.formed_of_tokens _ _ nested.program, coded⟩
  obtain ⟨mainWords, functionWords, first, rest, rfl⟩ := assembles.spelled named
  refine ⟨l', placed', ?_⟩
  apply named'.code_of_spells (Layout.places_of_ofProgram placed')
    (Program.formed_of_tokens _ _ nested'.program) (layouts.spells layouts.main first)
  apply forall₂_transport _ layouts.functions rest
  intro p p' ws here spells
  exact layouts.spells here spells

end WellNested

end Functions

end Accumulator
