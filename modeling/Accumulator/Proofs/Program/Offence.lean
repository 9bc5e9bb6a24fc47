import Accumulator.Proofs.Program.Orderly
import Accumulator.Proofs.Source.Expansion

set_option autoImplicit false

/-!
Which token sequences have a program, and which fault the others have. A sequence has a program exactly
if it is orderly and every function has come to its end; otherwise the first token that is out of order
is blamed, or the header of a function that is still open (`orderly_tokens_have_programs`).
-/

namespace Accumulator

open Source

namespace Tokens

/-- Why a token is out of order behind others, and blamed for it itself. What is checked first comes
first: a header is checked for its place, for its name, for identifiers and for a new name; an end for its
place and then for arguments; a label for one argument, for an identifier and for a new name. -/
inductive Offence (before : List Token) (t : Token) : Cause → Prop
  | unnamed (opens : t.isHeader = true) (outside : openHeader? before = none) (bare : t.args = []) :
      Offence before t (.malformed .functionUnnamed)
  | identifier (text : String) (opens : t.isHeader = true) (outside : openHeader? before = none)
      (first : t.args.find? (fun text => !Text.isIdentifier text) = some text) :
      Offence before t (.malformed (.invalidIdentifier text))
  | function (name : String) (params : List String) (opens : t.isHeader = true)
      (outside : openHeader? before = none) (args : t.args = name :: params)
      (identifiers : ∀ text ∈ t.args, Text.isIdentifier text = true)
      (taken : name ∈ mainName :: functionNames before) : Offence before t (.duplicateFunction name)
  | stray (closes : t.isTerminator = true) (outside : openHeader? before = none) :
      Offence before t (.malformed .endOutsideFunction)
  | arguments (closes : t.isTerminator = true) (inside : openHeader? before ≠ none)
      (some : t.args ≠ []) : Offence before t (.malformed .endWithArguments)
  | arity (keyword : t.kind = .keyword .label) (other : ∀ name, t.args ≠ [name]) :
      Offence before t (.malformed .labelArity)
  | label (name : String) (keyword : t.kind = .keyword .label) (args : t.args = [name])
      (other : Text.isIdentifier name = false) : Offence before t (.malformed (.invalidLabel name))
  | duplicate (name : String) (places : t.placedLabel? = some name)
      (named : t.kind = .keyword .label → Text.isIdentifier name = true)
      (taken : HasLabel before (scopeNumber before) name) : Offence before t (.duplicateLabel name)

/-- A fault of a token behind others: its own, or, if it is a header inside of a function, that of the
function that has not come to its end. -/
inductive Refuses (before : List Token) (t : Token) : Fault → Prop
  | offence (cause : Cause) (offence : Offence before t cause) : Refuses before t (t.fault cause)
  | nested (header : Token) (name : String) (opens : t.isHeader = true)
      (inside : openHeader? before = some header) (named : header.args.head? = some name) :
      Refuses before t (header.fault (.unterminatedFunction name))

/-- The fault of tokens that have no program: that of the first token which is out of order, or that of
the function that is open behind all of them. -/
inductive Blames (tokens : List Token) : Fault → Prop
  | token (before after : List Token) (t : Token) (f : Fault) (place : tokens = before ++ t :: after)
      (orderly : Orderly before) (first : ¬ Orderly (before ++ [t])) (refuses : Refuses before t f) :
      Blames tokens f
  | unclosed (header : Token) (name : String) (orderly : Orderly tokens)
      (inside : openHeader? tokens = some header) (named : header.args.head? = some name) :
      Blames tokens (header.fault (.unterminatedFunction name))

end Tokens

namespace Nesting

open Tokens

variable {n : Nesting} {tokens : List Token} {t : Token} {f : Fault}

theorem Reads.opened (reads : n.Reads tokens) {g : OpenFunction} (current : n.current = some g) :
    openHeader? tokens = some g.header ∧ g.header.args.head? = some g.name := by
  refine ⟨?_, reads.named g current⟩
  rw [← reads.current, current]
  rfl

theorem Reads.exists_opened (reads : n.Reads tokens) {header : Token} {name : String}
    (inside : openHeader? tokens = some header) (named : header.args.head? = some name) :
    ∃ g, n.current = some g ∧ g.header = header ∧ g.name = name := by
  rw [← reads.current, Option.map_eq_some_iff] at inside
  obtain ⟨g, current, rfl⟩ := inside
  have same := reads.named g current
  rw [named] at same
  exact ⟨g, current, rfl, (Option.some.inj same).symm⟩

/-- The names that a new function must not have. -/
theorem Reads.taken_iff (reads : n.Reads tokens) (idle : n.current = none) (name : String) :
    (name = mainName ∨ (n.functions.any fun s => s.name == name) = true) ↔
      name ∈ mainName :: functionNames tokens := by
  rw [List.mem_cons, ← reads.names_of_idle idle]
  simp

theorem Reads.addLabel_eq_error (reads : n.Reads tokens) (name : String) :
    n.addLabel name t = .error f ↔
      HasLabel tokens (scopeNumber tokens) name ∧ f = t.fault (.duplicateLabel name) := by
  have used : (n.body.any fun other => other.isLabel && other.mnemonic == name) = true ↔
      HasLabel tokens (scopeNumber tokens) name := by
    rw [← Classical.not_not (a := HasLabel _ _ _), ← reads.label_fresh_iff]
    simp
  unfold addLabel
  by_cases taken : HasLabel tokens (scopeNumber tokens) name
  · rw [if_pos (used.mpr taken)]
    exact ⟨fun same => ⟨taken, (Except.error.inj same).symm⟩, fun blamed => blamed.2 ▸ rfl⟩
  · rw [if_neg (used.not.mpr taken)]
    exact ⟨nofun, fun blamed => absurd blamed.1 taken⟩

theorem Reads.openFunction_refuses (reads : n.Reads tokens) (opens : t.isHeader = true)
    (failed : n.openFunction t = .error f) : Refuses tokens t f := by
  unfold openFunction at failed
  split at failed
  · rename_i g current
    cases failed
    obtain ⟨inside, named⟩ := reads.opened current
    exact .nested g.header g.name opens inside named
  · rename_i idle bare
    cases failed
    exact .offence _ (.unnamed opens (reads.idle_iff.mp idle) bare)
  · rename_i name params idle args
    have outside := reads.idle_iff.mp idle
    split at failed
    · rename_i text first
      cases failed
      exact .offence _ (.identifier text opens outside (args ▸ first))
    · rename_i identifiers
      split at failed
      · rename_i taken
        cases failed
        have known := (reads.taken_iff idle name).mp taken
        refine .offence _ (.function name params opens outside args ?_ known)
        rw [args]
        simpa using List.find?_eq_none.mp identifiers
      · cases failed

theorem Reads.closeFunction_refuses (reads : n.Reads tokens) (closes : t.isTerminator = true)
    (failed : n.closeFunction t = .error f) : Refuses tokens t f := by
  unfold closeFunction at failed
  split at failed
  · rename_i idle
    cases failed
    exact .offence _ (.stray closes (reads.idle_iff.mp idle))
  · rename_i g current
    split at failed
    · cases failed
    · rename_i some
      cases failed
      refine .offence _ (.arguments closes ?_ some)
      rw [(reads.opened current).1]
      exact nofun

/-- Every fault of reading a token is one of its place behind the tokens before it. -/
theorem Reads.refuses_of_accept (reads : n.Reads tokens) (expanded : t.kind ≠ .directive)
    (failed : n.accept t = .error f) : Refuses tokens t f := by
  unfold accept at failed
  split at failed
  · rename_i header
    exact reads.openFunction_refuses (Token.isHeader_iff.mpr header) failed
  · rename_i terminator
    exact reads.closeFunction_refuses (Token.isTerminator_iff.mpr terminator) failed
  · rename_i keyword
    split at failed
    · rename_i name args
      split at failed
      · rename_i identifier
        obtain ⟨taken, rfl⟩ := (reads.addLabel_eq_error name).mp failed
        refine .offence _ (.duplicate name ?_ (fun _ => identifier) taken)
        unfold Token.placedLabel?
        rw [keyword, args]
      · rename_i other
        cases failed
        exact .offence _ (.label name keyword args (Bool.eq_false_iff.mpr other))
    · rename_i other
      cases failed
      exact .offence _ (.arity keyword other)
  · rename_i label
    obtain ⟨taken, rfl⟩ := (reads.addLabel_eq_error t.mnemonic).mp failed
    refine .offence _ (.duplicate t.mnemonic ?_ ?_ taken)
    · unfold Token.placedLabel?
      rw [label]
    · rw [label]
      exact nofun
  · cases failed
  · rename_i directive
    exact absurd directive expanded

theorem accept_header (opens : t.isHeader = true) : n.accept t = n.openFunction t := by
  unfold accept
  rw [Token.isHeader_iff.mp opens]

theorem accept_terminator (closes : t.isTerminator = true) : n.accept t = n.closeFunction t := by
  unfold accept
  rw [Token.isTerminator_iff.mp closes]

/-- Behind the tokens before it a token has the fault of its place there. -/
theorem Reads.accept_of_refuses (reads : n.Reads tokens) (refuses : Refuses tokens t f) :
    n.accept t = .error f := by
  cases refuses with
  | nested header name opens inside named =>
    obtain ⟨g, current, rfl, rfl⟩ := reads.exists_opened inside named
    rw [accept_header opens]
    unfold openFunction
    rw [current]
    rfl
  | offence cause offence =>
    cases offence with
    | unnamed opens outside bare =>
      rw [accept_header opens]
      unfold openFunction
      rw [reads.idle_iff.mpr outside, bare]
      rfl
    | identifier text opens outside first =>
      rw [accept_header opens]
      unfold openFunction
      rw [reads.idle_iff.mpr outside]
      cases args : t.args with
      | nil =>
        rw [args] at first
        cases first
      | cons name params =>
        rw [args] at first
        dsimp only
        rw [first]
        rfl
    | function name params opens outside args identifiers taken =>
      have idle := reads.idle_iff.mpr outside
      have valid : (name :: params).find? (fun text => !Text.isIdentifier text) = none := by
        rw [List.find?_eq_none, ← args]
        intro text member
        simp [identifiers text member]
      rw [accept_header opens]
      unfold openFunction
      rw [idle, args]
      dsimp only
      rw [valid]
      dsimp only
      rw [if_pos ((reads.taken_iff idle name).mpr taken)]
    | stray closes outside =>
      rw [accept_terminator closes]
      unfold closeFunction
      rw [reads.idle_iff.mpr outside]
      rfl
    | arguments closes inside some =>
      rw [Ne, ← reads.idle_iff] at inside
      obtain ⟨g, current⟩ := Option.ne_none_iff_exists'.mp inside
      rw [accept_terminator closes]
      unfold closeFunction
      rw [current]
      dsimp only
      rw [if_neg some]
      rfl
    | arity keyword other =>
      unfold accept
      rw [keyword]
      dsimp only
      split
      · rename_i name args
        exact absurd args (other name)
      · rfl
    | label name keyword args other =>
      unfold accept
      rw [keyword, args]
      dsimp only
      rw [if_neg (by rw [other]; exact Bool.false_ne_true)]
      rfl
    | duplicate name places named taken =>
      have failed := (reads.addLabel_eq_error (t := t) name).mpr ⟨taken, rfl⟩
      unfold accept
      rcases Token.placedLabel?_eq_some places with ⟨label, rfl⟩ | ⟨keyword, args⟩
      · rw [label]
        exact failed
      · rw [keyword, args]
        dsimp only
        rw [if_pos (named keyword)]
        exact failed

theorem Reads.accept_eq_error (reads : n.Reads tokens) (expanded : t.kind ≠ .directive) :
    n.accept t = .error f ↔ Refuses tokens t f :=
  ⟨reads.refuses_of_accept expanded, reads.accept_of_refuses⟩

/-- The tokens up to the first that is out of order are read, and this one is refused. -/
theorem foldlM_accept_eq_error (expanded : ∀ t ∈ tokens, t.kind ≠ .directive) :
    tokens.foldlM accept start = .error f ↔ ∃ before t after, tokens = before ++ t :: after ∧
      Orderly before ∧ ¬ Orderly (before ++ [t]) ∧ Refuses before t f := by
  rw [foldlM_eq_error]
  constructor
  · rintro ⟨before, t, after, n, rfl, through, failed⟩
    rw [List.forall_mem_append, List.forall_mem_cons] at expanded
    obtain ⟨reads, orderly⟩ := reads_iff_orderly before expanded.1
    have front := orderly.mp ⟨n, through⟩
    have refuses := ((reads n through).accept_eq_error expanded.2.1).mp failed
    refine ⟨before, t, after, rfl, front, ?_, refuses⟩
    rw [← (reads n through).accepts_iff front expanded.2.1, failed]
    exact nofun
  · rintro ⟨before, t, after, rfl, front, _, refuses⟩
    rw [List.forall_mem_append] at expanded
    obtain ⟨reads, orderly⟩ := reads_iff_orderly before expanded.1
    obtain ⟨n, through⟩ := orderly.mpr front
    exact ⟨before, t, after, n, rfl, through, (reads n through).accept_of_refuses refuses⟩

end Nesting

namespace Tokens

open Nesting

variable {tokens : List Token}

theorem program_iff_closed (expanded : ∀ t ∈ tokens, t.kind ≠ .directive) :
    (∃ program, Program.ofTokens tokens = .ok program) ↔ Orderly tokens ∧ Closed tokens := by
  obtain ⟨reads, orderly⟩ := reads_iff_orderly tokens expanded
  constructor
  · rintro ⟨program, parsed⟩
    obtain ⟨n, through, idle, _⟩ := Program.ofTokens_eq_ok.mp parsed
    have whole := orderly.mp ⟨n, through⟩
    exact ⟨whole, whole.open_iff.mp ((reads n through).idle_iff.mp idle)⟩
  · rintro ⟨whole, closed⟩
    obtain ⟨n, through⟩ := orderly.mpr whole
    have idle := (reads n through).idle_iff.mpr (whole.open_iff.mpr closed)
    exact ⟨_, Program.ofTokens_eq_ok.mpr ⟨n, through, idle, rfl⟩⟩

theorem fault_iff_blames (expanded : ∀ t ∈ tokens, t.kind ≠ .directive) (f : Fault) :
    Program.ofTokens tokens = .error f ↔ Blames tokens f := by
  obtain ⟨reads, orderly⟩ := reads_iff_orderly tokens expanded
  unfold Program.ofTokens
  cases result : tokens.foldlM accept start with
  | error g =>
    change Except.error g = .error f ↔ _
    have broken : ¬ Orderly tokens := by
      rw [← orderly, result]
      exact nofun
    have first (f : Fault) := foldlM_accept_eq_error (f := f) expanded
    rw [result] at first
    simp only [Except.error.injEq] at first ⊢
    constructor
    · intro failed
      obtain ⟨before, t, after, place, front, breaks, refuses⟩ := (first f).mp failed
      exact .token before after t f place front breaks refuses
    · intro blames
      cases blames with
      | token before after t _ place front breaks refuses =>
        exact (first f).mpr ⟨before, t, after, place, front, breaks, refuses⟩
      | unclosed header name whole _ _ => exact absurd whole broken
  | ok n =>
    have whole := orderly.mp ⟨n, result⟩
    have known := reads n result
    change n.finish = .error f ↔ _
    unfold finish
    constructor
    · intro failed
      split at failed
      · rename_i g current
        cases failed
        obtain ⟨inside, named⟩ := known.opened current
        exact .unclosed g.header g.name whole inside named
      · cases failed
    · intro blames
      cases blames with
      | token before after t _ place front breaks refuses =>
        have failed := (foldlM_accept_eq_error expanded).mpr
          ⟨before, t, after, place, front, breaks, refuses⟩
        rw [result] at failed
        cases failed
      | unclosed header name _ inside named =>
        obtain ⟨g, current, rfl, rfl⟩ := known.exists_opened inside named
        rw [current]
        rfl

/-- Tokens that others, such as those of a text, are expanded to have a program exactly if they are
orderly and every function has come to its end. Otherwise they have the fault of the first token that is
out of order, or that of the function which is open behind all of them. -/
theorem orderly_tokens_have_programs (scanned tokens : List Token)
    (expands : Source.expand scanned = .ok tokens) :
    ((∃ program, Program.ofTokens tokens = .ok program) ↔ Orderly tokens ∧ Closed tokens) ∧
      ∀ f, Program.ofTokens tokens = .error f ↔ Blames tokens f := by
  have expanded : ∀ t ∈ tokens, t.kind ≠ .directive := fun t member =>
    (Constants.expand_settled scanned .empty tokens expands t member).1
  exact ⟨program_iff_closed expanded, fault_iff_blames expanded⟩

/-- A main scope that goes on behind a function, where a label of the part above it comes again. -/
def returningLabel : List Char := "#define f g\nhere\nFN f a\nhere\nEND\nLABEL here".toList

/-- The label of the function is another one, and that of the main scope is blamed. -/
theorem returningLabel_blamed : ∃ scanned tokens, Token.scan returningLabel = .ok scanned ∧
    Source.expand scanned = .ok tokens ∧ ¬ (Orderly tokens ∧ Closed tokens) ∧
      Blames tokens ⟨⟨6, "LABEL here"⟩, .duplicateLabel "here"⟩ := by
  have characters : returningLabel = _ := String.toList_ofList
  have facts : ∃ scanned, Token.scan returningLabel = .ok scanned ∧ ∃ tokens,
      Source.expand scanned = .ok tokens ∧
        Program.ofTokens tokens = .error ⟨⟨6, "LABEL here"⟩, .duplicateLabel "here"⟩ := by
    rw [characters]
    decide +kernel
  obtain ⟨scanned, read, tokens, expands, failed⟩ := facts
  obtain ⟨accepted, blamed⟩ := orderly_tokens_have_programs scanned tokens expands
  refine ⟨scanned, tokens, read, expands, ?_, (blamed _).mp failed⟩
  rw [← accepted, failed]
  exact nofun

end Tokens

end Accumulator
