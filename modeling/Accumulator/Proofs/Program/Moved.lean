import Accumulator.Assembly
import Accumulator.Proofs.Source.Moved

set_option autoImplicit false

/-!
Programs whose lines stand elsewhere. Scopes, addresses and words are the same, and where there is a
fault, its origin is changed as those of the lines are. So every fault has the origin of one of the
lines.
-/

namespace Accumulator

open Source

section Scopes

variable (move : Origin → Origin)

def Scope.moved (s : Scope) : Scope :=
  { s with
    header := s.header.map (Token.moved move)
    tokens := s.tokens.map (Token.moved move)
    terminator := s.terminator.map (Token.moved move) }

theorem Source.Token.isDeclaration_comp_moved :
    Token.isDeclaration ∘ Token.moved move = Token.isDeclaration :=
  rfl

theorem expandBody_moved (frame : Nat) (t : Token) :
    expandBody frame (t.moved move) = (expandBody frame t).map (Token.moved move) := by
  unfold expandBody
  change (if t.isLabel then _ else _) = _
  split
  · rfl
  · rw [Token.moved_mnemonic, Token.moved_args]
    split
    · rw [List.map_append, List.map_flatMap]
      rfl
    · rfl

theorem labelOffsets_moved (frame offset : Nat) (tokens : List Token) :
    labelOffsets frame offset (tokens.map (Token.moved move)) =
      labelOffsets frame offset tokens := by
  induction tokens generalizing offset with
  | nil => rfl
  | cons t rest ih =>
    rw [List.map_cons, labelOffsets, labelOffsets, expandBody_moved, List.length_map, ih, ih]
    rfl

theorem Scope.ofBody_moved (name : String) (header : Option Token) (params : List String)
    (body : List Token) (terminator : Option Token) :
    Scope.ofBody name (header.map (Token.moved move)) params (body.map (Token.moved move))
        (terminator.map (Token.moved move)) =
      (Scope.ofBody name header params body terminator).moved move := by
  have others : (fun t : Token => !t.isDeclaration) ∘ Token.moved move =
      fun t => !t.isDeclaration := rfl
  have labels : Token.isLabel ∘ Token.moved move = Token.isLabel := rfl
  unfold Scope.ofBody Scope.moved
  simp only [List.filter_map, Token.isDeclaration_comp_moved, others, labels, List.length_map,
    labelOffsets_moved, List.map_append, List.map_map, List.flatMap_map, List.map_flatMap,
    expandBody_moved]
  rfl

end Scopes

section Division

variable (move : Origin → Origin)

def OpenFunction.moved (f : OpenFunction) : OpenFunction :=
  { f with header := f.header.moved move, body := f.body.map (Token.moved move) }

def Nesting.moved (n : Nesting) : Nesting :=
  ⟨n.main.map (Token.moved move), n.functions.map (Scope.moved move),
    n.current.map (OpenFunction.moved move)⟩

def Program.moved (p : Program) : Program :=
  ⟨p.main.moved move, p.functions.map (Scope.moved move)⟩

namespace Nesting

theorem push_moved (n : Nesting) (t : Token) :
    (n.moved move).push (t.moved move) = (n.push t).moved move := by
  obtain ⟨main, functions, current⟩ := n
  cases current with
  | none => simp [moved, push]
  | some f => simp [moved, push, OpenFunction.moved]

theorem body_moved (n : Nesting) : (n.moved move).body = n.body.map (Token.moved move) := by
  obtain ⟨main, functions, current⟩ := n
  cases current <;> rfl

theorem addLabel_moved (n : Nesting) (name : String) (t : Token) :
    (n.moved move).addLabel name (t.moved move) =
      movedResult move (moved move) (n.addLabel name t) := by
  unfold addLabel
  rw [body_moved, List.any_map]
  change (if n.body.any (fun other => other.isLabel && other.mnemonic == name) then _ else _) = _
  split
  · rfl
  · exact congrArg Except.ok (push_moved move n ⟨.label, name, [], t.origin⟩)

theorem openFunction_moved (n : Nesting) (header : Token) :
    (n.moved move).openFunction (header.moved move) =
      movedResult move (moved move) (n.openFunction header) := by
  obtain ⟨main, functions, current⟩ := n
  cases current with
  | some f => rfl
  | none =>
    have idle : (moved move ⟨main, functions, none⟩).current = none := rfl
    unfold openFunction
    rw [Token.moved_args, idle]
    cases header.args with
    | nil => rfl
    | cons name params =>
      dsimp only
      cases (name :: params).find? fun text => !Text.isIdentifier text with
      | some text => rfl
      | none =>
        have same : ((functions.map (Scope.moved move)).any fun s => s.name == name) =
            functions.any fun s => s.name == name := List.any_map
        simp only [moved, same]
        split
        · rfl
        · simp [movedResult, moved, OpenFunction.moved, Token.derive, Token.moved]

theorem closeFunction_moved (n : Nesting) (terminator : Token) :
    (n.moved move).closeFunction (terminator.moved move) =
      movedResult move (moved move) (n.closeFunction terminator) := by
  obtain ⟨main, functions, current⟩ := n
  cases current with
  | none => rfl
  | some f =>
    unfold closeFunction
    rw [Token.moved_args]
    dsimp only [moved, Option.map_some]
    split
    · have scope := Scope.ofBody_moved move f.name (some f.header) f.params f.body (some terminator)
      simp only [Option.map_some] at scope
      simp [movedResult, moved, OpenFunction.moved, scope]
    · rfl

theorem accept_moved (n : Nesting) (t : Token) :
    (n.moved move).accept (t.moved move) = movedResult move (moved move) (n.accept t) := by
  unfold accept
  rw [Token.moved_kind, Token.moved_args]
  split
  · exact openFunction_moved move n t
  · exact closeFunction_moved move n t
  · split
    · rename_i name _
      split
      · exact addLabel_moved move n name t
      · rfl
    · rfl
  · exact addLabel_moved move n t.mnemonic t
  · exact congrArg Except.ok (push_moved move n t)
  · rfl

theorem finish_moved (n : Nesting) :
    (n.moved move).finish = movedResult move (Program.moved move) n.finish := by
  obtain ⟨main, functions, current⟩ := n
  cases current with
  | some f => rfl
  | none =>
    have scope := Scope.ofBody_moved move mainName none [] main none
    simp only [Option.map_none] at scope
    simp [finish, moved, movedResult, Program.moved, scope]

end Nesting

theorem Program.ofTokens_moved (tokens : List Token) :
    Program.ofTokens (tokens.map (Token.moved move)) =
      movedResult move (Program.moved move) (Program.ofTokens tokens) := by
  unfold Program.ofTokens
  apply movedResult_bind move
    (movedResult_foldlM move tokens .start (Nesting.accept_moved move))
  intro n
  exact n.finish_moved move

end Division

section Addresses

variable (move : Origin → Origin)

theorem declareVariable_moved (declared : List String) (t : Token) :
    declareVariable declared (t.moved move) = movedResult move id (declareVariable declared t) := by
  unfold declareVariable
  rw [Token.moved_args]
  split
  · split
    · rfl
    · split <;> rfl
  · rfl

theorem Scope.vars_moved (s : Scope) : (s.moved move).vars = movedResult move id s.vars := by
  unfold Scope.vars Scope.moved
  rw [List.filter_map, Token.isDeclaration_comp_moved]
  exact movedResult_foldlM move _ [] (declareVariable_moved move)

def Placement.moved (p : Placement) : Placement := { p with scope := p.scope.moved move }

def Layout.moved (l : Layout) : Layout :=
  ⟨l.main.moved move, l.functions.map (Placement.moved move)⟩

theorem Scope.size_moved (s : Scope) : (s.moved move).size = s.size :=
  List.length_map _

theorem placeFrom_moved (base : Nat) (scopes : List Scope) :
    placeFrom base (scopes.map (Scope.moved move)) =
      movedResult move (List.map (Placement.moved move)) (placeFrom base scopes) := by
  induction scopes generalizing base with
  | nil => rfl
  | cons s rest ih =>
    rw [List.map_cons, placeFrom, placeFrom, Scope.size_moved]
    apply movedResult_bind move (s.vars_moved move)
    intro vars
    apply movedResult_bind move (ih _)
    intro others
    rfl

theorem Layout.ofProgram_moved (p : Program) :
    Layout.ofProgram (p.moved move) =
      movedResult move (Layout.moved move) (Layout.ofProgram p) := by
  unfold Layout.ofProgram
  apply movedResult_bind move (p.main.vars_moved move)
  intro vars
  have size : (p.moved move).main.size = p.main.size := p.main.size_moved move
  rw [size]
  apply movedResult_bind move (placeFrom_moved move (p.main.size + 2) p.functions)
  intro placed
  rfl

end Addresses

section Words

variable (move : Origin → Origin)

def Reference.moved : Reference → Reference
  | .value n => .value n
  | .callee call function given => .callee (call.moved move) function given

theorem Placement.encode_moved (p : Placement) (t : Token) :
    (p.moved move).encode (t.moved move) =
      movedResult move (Prod.map id (Reference.moved move)) (p.encode t) := by
  unfold Placement.encode
  rw [Token.moved_mnemonic, Token.moved_args]
  split
  · rfl
  · split
    · split <;> rfl
    · split
      · split <;> rfl
      · split
        · rename_i i _ _ _ _ operand _
          have jump : (p.moved move).resolveJump operand = p.resolveJump operand := rfl
          have other : (p.moved move).resolve operand = p.resolve operand := rfl
          rw [jump, other]
          generalize (if i.operation = .goto then p.resolveJump operand else p.resolve operand) = n
          cases n <;> rfl
        · rfl

namespace Layout

theorem function?_moved (l : Layout) (name : String) :
    (l.moved move).function? name = (l.function? name).map (Placement.moved move) :=
  List.find?_map

theorem link_moved (l : Layout) (e : BitVec 8 × Reference) :
    (l.moved move).link (Prod.map id (Reference.moved move) e) =
      movedResult move id (l.link e) := by
  obtain ⟨code, reference⟩ := e
  cases reference with
  | value n => rfl
  | callee call function given =>
    dsimp only [link, Prod.map, Reference.moved]
    rw [function?_moved]
    cases l.function? function with
    | none => rfl
    | some p =>
      change (if p.scope.params.length = given then _ else _) = _
      dsimp only
      split <;> rfl

theorem code_moved (l : Layout) : (l.moved move).code = movedResult move id l.code := by
  have scope (p : Placement) := movedResult_mapM move p.scope.tokens (p.encode_moved move)
  unfold code
  apply movedResult_bind move (scope l.main)
  intro main
  apply movedResult_bind move (movedResult_mapM move l.functions scope)
  intro functions
  have linked :=
    movedResult_mapM move (main ++ (0, .value 0) :: functions.flatten) (l.link_moved move)
  rw [List.map_id_fun] at linked
  rw [← linked]
  simp [Reference.moved]

end Layout

end Words

namespace Assembly

/-- What lines with these contents are assembled to. -/
def ofContents (contents : List Content) : Except Fault Assembly := do
  let tokens ← contents.mapM Content.token
  let expanded ← Source.expand tokens
  let program ← Program.ofTokens expanded
  let layout ← Layout.ofProgram program
  let words ← layout.code
  return ⟨layout, words⟩

theorem ofSource_eq_ofContents (text : List Char) :
    ofSource text = ofContents (Content.ofLines 1 (Text.lines text)) := by
  unfold ofSource ofContents Program.ofSource Token.scan
  rw [Token.ofLines_eq, bind_assoc]
  simp only [bind_assoc]

def moved (move : Origin → Origin) (a : Assembly) : Assembly :=
  { a with layout := a.layout.moved move }

theorem ofContents_moved (move : Origin → Origin) (contents : List Content) :
    ofContents (contents.map (Content.moved move)) =
      movedResult move (moved move) (ofContents contents) := by
  unfold ofContents
  apply movedResult_bind move (movedResult_mapM move contents (Content.token_moved move))
  intro tokens
  apply movedResult_bind move (Constants.expand_moved move .empty tokens)
  intro expanded
  apply movedResult_bind move (Program.ofTokens_moved move expanded)
  intro program
  apply movedResult_bind move (Layout.ofProgram_moved move program)
  intro layout
  apply movedResult_bind move (layout.code_moved move)
  intro words
  rfl

/-- The words are those of the expanded tokens, wherever their lines stand. -/
theorem words_of_moved {text : List Char} {tokens lines : List Token} {program : Program}
    {l : Layout} {words : List Word} {move : Origin → Origin} (scanned : Token.scan text = .ok tokens)
    (expands : Source.expand tokens = .ok (lines.map (Token.moved move)))
    (parsed : Program.ofTokens lines = .ok program) (placed : Layout.ofProgram program = .ok l)
    (coded : l.code = .ok words) : ∃ a, ofSource text = .ok a ∧ a.words = words := by
  have parsed' := Program.ofTokens_moved move lines
  have placed' := Layout.ofProgram_moved move program
  have coded' := l.code_moved move
  rw [parsed] at parsed'
  rw [placed] at placed'
  rw [coded] at coded'
  refine ⟨⟨l.moved move, words⟩, ?_, rfl⟩
  unfold ofSource Program.ofSource
  simp only [bind_eq_ok, pure_eq_ok]
  exact ⟨_, ⟨tokens, scanned, _, expands, parsed'⟩, _, placed', _, coded', rfl⟩

/-- The origin of a fault is that of one of the lines: otherwise it could be moved without moving a
line. -/
theorem content_of_fault {contents : List Content} {f : Fault}
    (rejected : ofContents contents = .error f) : ∃ c ∈ contents, c.origin = f.origin := by
  by_contra absent
  let move (o : Origin) : Origin := if o = f.origin then ⟨f.origin.line + 1, f.origin.text⟩ else o
  have stays : ∀ c ∈ contents, c.moved move = id c := by
    intro c member
    have apart : c.origin ≠ f.origin := fun same => absent ⟨c, member, same⟩
    have origin : move c.origin = c.origin := if_neg apart
    unfold Content.moved
    rw [origin]
    rfl
  have both := ofContents_moved move contents
  rw [List.map_congr_left stays, List.map_id, rejected] at both
  have origin : f.origin = move f.origin := congrArg Fault.origin (Except.error.inj both)
  have moves : move f.origin = ⟨f.origin.line + 1, f.origin.text⟩ := if_pos rfl
  rw [moves] at origin
  have line := congrArg Origin.line origin
  exact Nat.succ_ne_self _ line.symm

end Assembly

end Accumulator
