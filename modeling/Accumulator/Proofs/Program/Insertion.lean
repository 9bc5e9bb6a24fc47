import Accumulator.Proofs.Program.Lowering
import Accumulator.Proofs.Program.Moved
import Accumulator.Proofs.Program.WellNested
import Accumulator.Proofs.Source.Substitution

set_option autoImplicit false

/-!
A line that is put between others. The lines above it stay, those below it stand one line further
down, and it belongs to the scope that is open behind the lines above it.
-/

namespace Accumulator

open Source

section Lines

/-- Where a line stands when another one is put behind the first `above` lines. -/
def Origin.shifted (above : Nat) (o : Origin) : Origin :=
  if o.line ≤ above then o else ⟨o.line + 1, o.text⟩

namespace Source.Content

theorem ofLines_above (lines : List (List Char)) :
    (ofLines 1 lines).map (moved (Origin.shifted lines.length)) = ofLines 1 lines := by
  conv_rhs => rw [← List.map_id (ofLines 1 lines)]
  apply List.map_congr_left
  intro c member
  obtain ⟨i, line, found, read⟩ := ofLines_mem member
  obtain ⟨inside, _⟩ := List.getElem?_eq_some_iff.mp found
  have origin := (ofLine?_eq_some read).1
  have stays : c.origin.shifted lines.length = c.origin := by
    rw [origin]
    exact if_pos (by change 1 + i ≤ lines.length; omega)
  unfold moved
  rw [stays]
  rfl

theorem ofLines_below (above first : Nat) (lines : List (List Char)) (below : above < first) :
    (ofLines first lines).map (moved (Origin.shifted above)) = ofLines (first + 1) lines := by
  apply ofLines_moved
  intro number text low
  exact if_neg (by change ¬ number ≤ above; omega)

end Source.Content

/-- The contents of a text, and of the text with one more line at a line feed, apart from the places of
lines. -/
theorem Assembly.ofSource_between (above below line : List Char)
    (plain : ∀ c ∈ line, c ≠ '\n' ∧ c ≠ '\r') :
    ∃ number lower,
      ofContents (Content.ofLines 1 (Text.lines (above ++ ['\n'])) ++ lower) =
        movedResult (Origin.shifted number) (moved (Origin.shifted number))
          (ofSource (above ++ '\n' :: below)) ∧
      ofSource (above ++ '\n' :: (line ++ '\n' :: below)) =
        ofContents (Content.ofLines 1 (Text.lines (above ++ ['\n'])) ++
          ((Content.ofLine? (number + 1) line).toList ++ lower)) := by
  generalize upper : Text.lines (above ++ ['\n']) = rows
  refine ⟨rows.length, Content.ofLines (rows.length + 2) (Text.lines below), ?_, ?_⟩
  · have lower := Content.ofLines_below rows.length (rows.length + 1) (Text.lines below) (by omega)
    rw [ofSource_eq_ofContents, Text.lines_feed, upper, ← ofContents_moved, Content.ofLines_append,
      List.map_append, Content.ofLines_above, Nat.add_comm 1, lower]
  · rw [ofSource_eq_ofContents, Text.lines_feed, upper, Text.lines_append_feed line below plain,
      Content.ofLines_append, Content.ofLines_cons, Nat.add_comm 1]

end Lines

section Scopes

/-- The scope of the tokens behind a token, in which the scope before it is `current`. -/
def Source.Token.scopeBehind (current : String) (t : Token) : String :=
  match t.kind with
  | .keyword .function => t.args.headD ""
  | .keyword .finish => mainName
  | _ => current

/-- The name of the scope that is open behind tokens. -/
def openScope (tokens : List Token) : String :=
  tokens.foldl Token.scopeBehind mainName

/-- A division with one more line in one of the scopes. -/
inductive LineAdded (t : Token) (scope : String) :
    List Token → List FunctionText → List Token → List FunctionText → Prop
  | main (before after : List Token) (functions : List FunctionText) (outside : scope = mainName) :
      LineAdded t scope (before ++ after) functions (before ++ t :: after) functions
  | function (main : List Token) (earlier later : List FunctionText) (f : FunctionText)
      (before after : List Token) (lines : f.lines = before ++ after) (inside : scope = f.name) :
      LineAdded t scope main (earlier ++ f :: later) main
        (earlier ++ { f with lines := before ++ t :: after } :: later)

variable {t : Token} {scope : String} {tokens main main' : List Token}
  {functions functions' : List FunctionText}

theorem Source.Token.InBody.scopeBehind (inside : t.InBody) (current : String) :
    t.scopeBehind current = current := by
  obtain ⟨header, terminator⟩ := inside.not_function
  unfold Token.scopeBehind
  split
  · contradiction
  · contradiction
  · rfl

theorem foldl_scopeBehind (lines : List Token) (inside : ∀ t ∈ lines, t.InBody) (current : String) :
    lines.foldl Token.scopeBehind current = current := by
  induction lines with
  | nil => rfl
  | cons t lines ih =>
    rw [List.forall_mem_cons] at inside
    rw [List.foldl_cons, inside.1.scopeBehind, ih inside.2]

theorem LineAdded.line (added : LineAdded t scope main functions main' functions') (s : Token) :
    LineAdded t scope (s :: main) functions (s :: main') functions' := by
  cases added with
  | main before after _ outside => exact .main (s :: before) after _ outside
  | function _ earlier later f before after lines inside =>
    exact .function _ earlier later f before after lines inside

theorem LineAdded.function_first (added : LineAdded t scope main functions main' functions')
    (f : FunctionText) : LineAdded t scope main (f :: functions) main' (f :: functions') := by
  cases added with
  | main before after _ outside => exact .main before after _ outside
  | function _ earlier later g before after lines inside =>
    exact .function _ (f :: earlier) later g before after lines inside

/-- The scope behind a part of a function that begins with its header and ends before its end. -/
theorem openScope_header {header : Token} {lines : List Token}
    (opens : header.kind = .keyword .function) (inside : ∀ t ∈ lines, t.InBody) :
    openScope (header :: lines) = header.args.headD "" := by
  have behind : header.scopeBehind mainName = header.args.headD "" := by
    unfold Token.scopeBehind
    rw [opens]
  unfold openScope
  rw [List.foldl_cons, behind, foldl_scopeBehind lines inside]

theorem openScope_terminator (front : List Token) {rest : List Token} {terminator : Token}
    (closes : terminator.kind = .keyword .finish) :
    openScope (front ++ terminator :: rest) = openScope rest := by
  have behind (current : String) : terminator.scopeBehind current = mainName := by
    unfold Token.scopeBehind
    rw [closes]
  unfold openScope
  rw [List.foldl_append, List.foldl_cons, behind]

/-- Before the end of a function, a line becomes one of its lines. -/
theorem Divides.insert_within {f : FunctionText} {rest before after : List Token}
    (divides : Divides rest main functions) (inside : t.InBody)
    (opens : f.header.kind = .keyword .function) (body : ∀ s ∈ f.lines, s.InBody)
    (closes : f.terminator.kind = .keyword .finish) (lines : f.lines = before ++ after) :
    ∃ main' functions',
      LineAdded t (openScope (f.header :: before)) main (f :: functions) main' functions' ∧
      Divides (f.header :: before ++ t :: (after ++ f.terminator :: rest)) main' functions' := by
  rw [lines] at body
  rw [List.forall_mem_append] at body
  have named := openScope_header opens body.1
  have grown : ∀ s ∈ before ++ t :: after, s.InBody := by
    rw [List.forall_mem_append, List.forall_mem_cons]
    exact ⟨body.1, inside, body.2⟩
  have divides' := Divides.function { f with lines := before ++ t :: after } rest main functions
    opens grown closes divides
  rw [List.cons_append, List.append_assoc, List.cons_append] at divides'
  exact ⟨main, _, .function main [] functions f before after lines named, divides'⟩

/-- A line between two parts of a token sequence is a line of the scope that is open there. -/
theorem Divides.insert (divides : Divides tokens main functions) (inside : t.InBody)
    (above below : List Token) (parts : tokens = above ++ below) :
    ∃ main' functions', LineAdded t (openScope above) main functions main' functions' ∧
      Divides (above ++ t :: below) main' functions' := by
  induction divides generalizing above with
  | nil =>
    obtain ⟨rfl, rfl⟩ := List.nil_eq_append_iff.mp parts
    exact ⟨[t], [], .main [] [] [] rfl, .line t _ _ _ inside .nil⟩
  | line s rest main functions body divides ih =>
    cases above with
    | nil =>
      cases parts
      exact ⟨t :: s :: main, functions, .main [] _ _ rfl,
        .line t _ _ _ inside (.line s _ _ _ body divides)⟩
    | cons first above =>
      cases parts
      obtain ⟨main', functions', added, divides'⟩ := ih above rfl
      have scope : openScope (s :: above) = openScope above := by
        unfold openScope
        rw [List.foldl_cons, body.scopeBehind]
      rw [scope]
      exact ⟨s :: main', functions', added.line s, .line s _ _ _ body divides'⟩
  | function f rest main functions opens body closes divides ih =>
    cases above with
    | nil =>
      cases parts
      exact ⟨t :: main, f :: functions, .main [] _ _ rfl,
        .line t _ _ _ inside (.function f _ _ _ opens body closes divides)⟩
    | cons first above =>
      rw [List.cons_append, List.cons_append] at parts
      obtain ⟨rfl, inner⟩ := List.cons.inj parts
      rcases List.append_eq_append_iff.mp inner with ⟨behind, rfl, ends⟩ | ⟨after, lines, rfl⟩
      · cases behind with
        | nil =>
          rw [List.nil_append] at ends
          rw [List.append_nil, ← ends]
          exact divides.insert_within inside opens body closes (List.append_nil _).symm
        | cons last behind =>
          rw [List.cons_append] at ends
          obtain ⟨rfl, rest⟩ := List.cons.inj ends
          obtain ⟨main', functions', added, divides'⟩ := ih behind rest
          have scope : openScope (f.header :: (f.lines ++ f.terminator :: behind)) =
              openScope behind :=
            openScope_terminator (f.header :: f.lines) closes
          have tokens := Divides.function f _ _ _ opens body closes divides'
          rw [scope]
          refine ⟨main', f :: functions', added.function_first f, ?_⟩
          simpa only [List.cons_append, List.append_assoc] using tokens
      · -- The cut is inside of the function.
        exact divides.insert_within inside opens body closes lines

end Scopes

section Labels

variable {t : Token} {name scope : String} {tokens tokens' main main' : List Token}
  {functions functions' : List FunctionText}

theorem Scope.isSome_label?_iff {lines : List Token} (inside : ∀ t ∈ lines, t.InBody)
    (scopeName : String) (header : Option Token) (params : List String) (terminator : Option Token) :
    ((Scope.ofBody scopeName header params (lines.map Token.kept) terminator).label? name).isSome ↔
      name ∈ lines.filterMap Token.placedLabel? := by
  have names := Scope.ofBody_placed_labels inside scopeName header params terminator
  unfold Scope.label?
  rw [← names.mem_iff, List.lookup_isSome_iff, List.mem_map]
  simp only [beq_iff_eq, eq_comm (a := name)]

theorem LabelsApart.insert {before after : List Token} (apart : LabelsApart (before ++ after))
    (places : t.placedLabel? = some name) (identifier : Text.isIdentifier name = true)
    (fresh : name ∉ (before ++ after).filterMap Token.placedLabel?) :
    LabelsApart (before ++ t :: after) := by
  refine ⟨?_, ?_⟩
  · intro s member label text argument
    rw [List.mem_append, List.mem_cons] at member
    rcases member with above | rfl | below
    · exact apart.named s (List.mem_append_left _ above) label text argument
    · rcases Token.placedLabel?_eq_some places with ⟨bare, _⟩ | ⟨_, args⟩
      · rw [label] at bare
        cases bare
      · rw [args, List.mem_singleton] at argument
        rw [argument, identifier]
    · exact apart.named s (List.mem_append_right _ below) label text argument
  · have distinct := apart.distinct
    rw [List.filterMap_append] at fresh distinct
    rw [List.filterMap_append, List.filterMap_cons_some places, List.nodup_middle, List.nodup_cons]
    exact ⟨fresh, distinct⟩

/-- No scope of the name has the label. -/
def Program.Lacks (program : Program) (scope name : String) : Prop :=
  ∀ s ∈ program.scopes, s.name = scope → s.label? name = none

theorem LineAdded.wellNested (added : LineAdded t scope main functions main' functions')
    (nested : WellNested tokens main functions) (divides : Divides tokens' main' functions')
    (places : t.placedLabel? = some name) (identifier : Text.isIdentifier name = true)
    (lacks : (Program.ofParts main functions).Lacks scope name) :
    WellNested tokens' main' functions' := by
  obtain ⟨mainLines, functionLines⟩ := nested.divides.inBody
  cases added with
  | main before after _ outside =>
    have fresh := lacks _ List.mem_cons_self outside.symm
    rw [← Option.not_isSome_iff_eq_none] at fresh
    refine ⟨divides, ?_, nested.proper, nested.names⟩
    apply nested.main.insert places identifier
    rwa [← Scope.isSome_label?_iff (fun s line => (mainLines s line).2)]
  | function _ earlier later f before after lines inside =>
    have listed : f ∈ earlier ++ f :: later := List.mem_append_right _ List.mem_cons_self
    have fresh := lacks f.scope (List.mem_cons_of_mem _ (List.mem_map_of_mem listed)) inside.symm
    have body := f.inBody_allLines fun s line => (functionLines f listed s line).2
    rw [← Option.not_isSome_iff_eq_none, FunctionText.scope, Scope.isSome_label?_iff body,
      f.placedLabels_allLines, lines] at fresh
    have proper := nested.proper f listed
    have apart : LabelsApart (before ++ after) := lines ▸ proper.lines
    refine ⟨divides, nested.main, ?_, ?_⟩
    · have others := nested.proper
      rw [List.forall_mem_append, List.forall_mem_cons] at others ⊢
      exact ⟨others.1, ⟨proper.header, apart.insert places identifier fresh, proper.terminator⟩,
        others.2.2⟩
    · have names := nested.names
      rw [List.map_append, List.map_cons] at names ⊢
      exact names

/-- The label of the line is one of its scope. -/
theorem LineAdded.records (added : LineAdded t scope main functions main' functions')
    (divides : Divides tokens' main' functions') (places : t.placedLabel? = some name) :
    ∃ s ∈ (Program.ofParts main' functions').scopes, s.name = scope ∧
      (s.label? name).isSome := by
  obtain ⟨mainLines, functionLines⟩ := divides.inBody
  have listed (before after : List Token) :
      name ∈ (before ++ t :: after).filterMap Token.placedLabel? :=
    List.mem_filterMap.mpr ⟨t, List.mem_append_right _ List.mem_cons_self, places⟩
  cases added with
  | main before after _ outside =>
    refine ⟨_, List.mem_cons_self, outside.symm, ?_⟩
    exact (Scope.isSome_label?_iff (fun s line => (mainLines s line).2) ..).mpr (listed before after)
  | function _ earlier later f before after lines inside =>
    have member : { f with lines := before ++ t :: after } ∈
        earlier ++ { f with lines := before ++ t :: after } :: later :=
      List.mem_append_right _ List.mem_cons_self
    refine ⟨_, List.mem_cons_of_mem _ (List.mem_map_of_mem member), inside.symm, ?_⟩
    have body := FunctionText.inBody_allLines _ fun s line => (functionLines _ member s line).2
    rw [FunctionText.scope, Scope.isSome_label?_iff body, FunctionText.placedLabels_allLines]
    exact listed before after

end Labels

end Accumulator
