import Accumulator.Proofs.Checked
import Accumulator.Proofs.Text.Line
import Accumulator.Source.Expansion

set_option autoImplicit false

/-!
Lines that stand elsewhere. Reading tokens and expanding them look at the fields of lines only:
where the origins of lines change, those of tokens and faults change in the same way, and nothing
else does.
-/

namespace Accumulator

open Source

section Results

variable (move : Origin → Origin)

def Source.Fault.moved (f : Fault) : Fault := { f with origin := move f.origin }

def Source.Token.moved (t : Token) : Token := { t with origin := move t.origin }

@[simp] theorem Source.Token.moved_kind (t : Token) : (t.moved move).kind = t.kind := rfl

@[simp] theorem Source.Token.moved_mnemonic (t : Token) :
    (t.moved move).mnemonic = t.mnemonic := rfl

@[simp] theorem Source.Token.moved_args (t : Token) : (t.moved move).args = t.args := rfl

/-- A result that is changed by a function, or its fault with another origin. -/
def movedResult {α β : Type} (f : α → β) : Except Fault α → Except Fault β
  | .ok a => .ok (f a)
  | .error e => .error (e.moved move)

variable {α α' β β' : Type} {f : α → α'} {h : β → β'}

theorem movedResult_bind {x : Except Fault α} {x' : Except Fault α'} {k : α → Except Fault β}
    {k' : α' → Except Fault β'} (first : x' = movedResult move f x)
    (next : ∀ a, k' (f a) = movedResult move h (k a)) :
    (x' >>= k') = movedResult move h (x >>= k) := by
  rw [first]
  cases x with
  | error e => rfl
  | ok a => exact next a

theorem movedResult_mapM {k : α → Except Fault β} {k' : α' → Except Fault β'} (xs : List α)
    (each : ∀ x, k' (f x) = movedResult move h (k x)) :
    (xs.map f).mapM k' = movedResult move (List.map h) (xs.mapM k) := by
  induction xs with
  | nil => rfl
  | cons x xs ih =>
    rw [List.map_cons, List.mapM_cons, List.mapM_cons]
    apply movedResult_bind move (each x)
    intro y
    apply movedResult_bind move ih
    intro ys
    rfl

theorem movedResult_foldlM {k : β → α → Except Fault β} {k' : β' → α' → Except Fault β'}
    (xs : List α) (s : β) (each : ∀ s x, k' (h s) (f x) = movedResult move h (k s x)) :
    (xs.map f).foldlM k' (h s) = movedResult move h (xs.foldlM k s) := by
  induction xs generalizing s with
  | nil => rfl
  | cons x xs ih =>
    rw [List.map_cons, List.foldlM_cons, List.foldlM_cons]
    exact movedResult_bind move (each s x) ih

end Results

/-- What is read of a line that has fields: the first of them and the others. -/
structure Source.Content where
  origin : Origin
  mnemonic : String
  args : List String

namespace Source.Content

def moved (move : Origin → Origin) (c : Content) : Content := { c with origin := move c.origin }

def ofLine? (number : Nat) (line : List Char) : Option Content :=
  match (Text.fields (stripComment line)).map String.ofList with
  | [] => none
  | mnemonic :: args =>
    some ⟨⟨number, String.ofList (Text.trim (stripComment line))⟩, mnemonic, args⟩

/-- The lines with fields, of lines that are numbered from `first` on. -/
def ofLines (first : Nat) (lines : List (List Char)) : List Content :=
  (lines.zipIdx first).filterMap fun (line, number) => ofLine? number line

theorem ofLine?_eq_some {number : Nat} {line : List Char} {c : Content}
    (read : ofLine? number line = some c) :
    c.origin = ⟨number, String.ofList (Text.trim (stripComment line))⟩ ∧
      (Text.fields (stripComment line)).map String.ofList = c.mnemonic :: c.args := by
  unfold ofLine? at read
  split at read
  · cases read
  · rename_i fields
    cases read
    exact ⟨rfl, fields⟩

theorem ofLines_cons (first : Nat) (line : List Char) (rest : List (List Char)) :
    ofLines first (line :: rest) = (ofLine? first line).toList ++ ofLines (first + 1) rest := by
  unfold ofLines
  rw [List.zipIdx_cons, List.filterMap_cons]
  dsimp only
  cases ofLine? first line <;> rfl

theorem ofLines_append (first : Nat) (above below : List (List Char)) :
    ofLines first (above ++ below) =
      ofLines first above ++ ofLines (first + above.length) below := by
  unfold ofLines
  rw [List.zipIdx_append, List.filterMap_append]

/-- Lines that all move down by the same number of lines are numbered from there on. -/
theorem ofLines_moved {move : Origin → Origin} {shift : Nat} (first : Nat) (lines : List (List Char))
    (shifts : ∀ number text, first ≤ number → move ⟨number, text⟩ = ⟨number + shift, text⟩) :
    (ofLines first lines).map (moved move) = ofLines (first + shift) lines := by
  induction lines generalizing first with
  | nil => rfl
  | cons line rest ih =>
    have later := ih (first + 1) fun number text below => shifts number text (Nat.le_of_succ_le below)
    rw [ofLines_cons, ofLines_cons, List.map_append, later, Nat.add_right_comm]
    congr 1
    unfold ofLine?
    cases (Text.fields (stripComment line)).map String.ofList with
    | nil => rfl
    | cons mnemonic args =>
      have here (text : String) := shifts first text (Nat.le_refl first)
      simp only [Option.toList_some, List.map_singleton, moved, here]

theorem ofLines_mem {first : Nat} {lines : List (List Char)} {c : Content}
    (member : c ∈ ofLines first lines) :
    ∃ i line, lines[i]? = some line ∧ ofLine? (first + i) line = some c := by
  obtain ⟨⟨line, number⟩, placed, read⟩ := List.mem_filterMap.mp member
  rw [List.mk_mem_zipIdx_iff_le_and_getElem?_sub] at placed
  obtain ⟨below, found⟩ := placed
  refine ⟨number - first, line, found, ?_⟩
  rw [Nat.add_sub_cancel' below]
  exact read

def token (c : Content) : Except Fault Token :=
  match Kind.ofFields? c.mnemonic c.args with
  | some kind => .ok ⟨kind, c.mnemonic, c.args, c.origin⟩
  | none => .error ⟨c.origin, .unknownToken⟩

theorem token_moved (move : Origin → Origin) (c : Content) :
    (c.moved move).token = movedResult move (Token.moved move) c.token := by
  unfold token
  dsimp only [moved]
  split <;> rfl

end Source.Content

theorem Source.Token.ofLine?_eq (number : Nat) (line : List Char) :
    Token.ofLine? number line = match Content.ofLine? number line with
      | none => .ok none
      | some c => c.token.map some := by
  unfold Token.ofLine? Content.ofLine?
  dsimp only
  rw [Text.fields_trim]
  cases (Text.fields (stripComment line)).map String.ofList with
  | nil => rfl
  | cons mnemonic args =>
    unfold Content.token
    dsimp only
    cases Kind.ofFields? mnemonic args <;> rfl

/-- The tokens of lines are those of what is read of them. -/
theorem Source.Token.ofLines_eq (first : Nat) (lines : List (List Char)) :
    Token.ofLines first lines = (Content.ofLines first lines).mapM Content.token := by
  unfold Content.ofLines
  induction lines generalizing first with
  | nil => rfl
  | cons line rest ih =>
    rw [Token.ofLines, Token.ofLine?_eq, ih, List.zipIdx_cons, List.filterMap_cons]
    dsimp only
    cases Content.ofLine? first line with
    | none =>
      generalize (List.filterMap _ _).mapM Content.token = others
      cases others <;> rfl
    | some c =>
      dsimp only
      rw [List.mapM_cons]
      cases c.token <;> rfl

section Expansion

variable (move : Origin → Origin)

theorem Source.Constants.definition_moved (c : Constants) (t : Token) :
    c.definition (t.moved move) = movedResult move id (c.definition t) := by
  unfold Constants.definition
  rw [Token.moved_mnemonic, Token.moved_args]
  split
  · split
    · split
      · split <;> rfl
      · rfl
    · rfl
  · rfl

theorem Source.Constants.expandToken_moved (c : Constants) (t : Token) :
    c.expandToken (t.moved move) = movedResult move (Token.moved move) (c.expandToken t) := by
  unfold Constants.expandToken
  dsimp only [Token.moved]
  split <;> rfl

theorem Source.Constants.expand_moved (c : Constants) (tokens : List Token) :
    c.expand (tokens.map (Token.moved move)) =
      movedResult move (List.map (Token.moved move)) (c.expand tokens) := by
  induction tokens generalizing c with
  | nil => rfl
  | cons t rest ih =>
    rw [List.map_cons, Constants.expand, Constants.expand, Token.moved_kind]
    by_cases directive : t.kind = .directive
    · rw [if_pos directive, if_pos directive]
      apply movedResult_bind move (c.definition_moved move t)
      intro defined
      exact ih (c.define defined.1 defined.2)
    · rw [if_neg directive, if_neg directive]
      apply movedResult_bind move (c.expandToken_moved move t)
      intro expanded
      apply movedResult_bind move (ih c)
      intro others
      rfl

end Expansion

end Accumulator
