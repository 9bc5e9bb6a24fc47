import Accumulator.Proofs.Program.WellNested
import Mathlib.Data.List.Induction

set_option autoImplicit false

/-!
Token sequences by their places: which function is open behind some of the tokens, and which scope the
next one belongs to. A sequence is orderly if headers and ends alternate, all names are identifiers, and
no name stands for two functions, or for two labels of a scope. Reading takes a token in exactly if the
sequence is still orderly with it (`Reads.accepts_iff`).
-/

namespace Accumulator

open Source

def Source.Token.isHeader (t : Token) : Bool := t.kind == .keyword .function

def Source.Token.isTerminator (t : Token) : Bool := t.kind == .keyword .finish

theorem Source.Token.isHeader_iff {t : Token} : t.isHeader = true ↔ t.kind = .keyword .function :=
  beq_iff_eq

theorem Source.Token.isTerminator_iff {t : Token} :
    t.isTerminator = true ↔ t.kind = .keyword .finish :=
  beq_iff_eq

theorem Source.Token.not_isHeader {t : Token} (closes : t.isTerminator = true) :
    t.isHeader = false := by
  unfold Token.isHeader
  rw [Token.isTerminator_iff.mp closes]
  rfl

theorem Source.Token.not_isTerminator {t : Token} (opens : t.isHeader = true) :
    t.isTerminator = false := by
  unfold Token.isTerminator
  rw [Token.isHeader_iff.mp opens]
  rfl

namespace Tokens

/-- The headers and ends of functions among tokens. -/
def boundaries (tokens : List Token) : List Token :=
  tokens.filter fun t => t.isHeader || t.isTerminator

def headers (tokens : List Token) : List Token := tokens.filter Token.isHeader

/-- The names that headers give to functions. -/
def functionNames (tokens : List Token) : List String :=
  (headers tokens).filterMap fun t => t.args.head?

/-- The header of the function that is open behind tokens. -/
def openHeader? (tokens : List Token) : Option Token :=
  (boundaries tokens).getLast?.filter Token.isHeader

/-- The number of the scope that the next token belongs to: functions are counted by their headers, and
the main scope has the number zero wherever it goes on. -/
def scopeNumber (tokens : List Token) : Nat :=
  if (openHeader? tokens).isSome then (headers tokens).length else 0

/-- One of the tokens places a label of this name in the scope of this number. -/
def HasLabel (tokens : List Token) (number : Nat) (name : String) : Prop :=
  ∃ i t, tokens[i]? = some t ∧ t.placedLabel? = some name ∧ scopeNumber (tokens.take i) = number

/-- Tokens that may begin a program: headers and ends alternate, the first a header; headers have
arguments, all of them identifiers, and name different functions, none of them the main scope; ends have
no arguments; each label keyword has one identifier; and no scope has two labels of one name. -/
structure Orderly (tokens : List Token) : Prop where
  alternate : ∀ i t, (boundaries tokens)[i]? = some t → (t.isHeader = true ↔ i % 2 = 0)
  headers : ∀ t ∈ tokens, t.isHeader = true →
    t.args ≠ [] ∧ ∀ text ∈ t.args, Text.isIdentifier text = true
  names : (mainName :: functionNames tokens).Nodup
  ends : ∀ t ∈ tokens, t.isTerminator = true → t.args = []
  labels : ∀ t ∈ tokens, t.kind = .keyword .label →
    ∃ name, t.args = [name] ∧ Text.isIdentifier name = true
  apart : ∀ i j s t name, i < j → tokens[i]? = some s → tokens[j]? = some t →
    s.placedLabel? = some name → t.placedLabel? = some name →
    scopeNumber (tokens.take i) ≠ scopeNumber (tokens.take j)

/-- Every function has come to its end. -/
def Closed (tokens : List Token) : Prop := (boundaries tokens).length % 2 = 0

section Concat

variable {tokens : List Token} {t : Token}

theorem headers_concat : headers (tokens ++ [t]) =
    headers tokens ++ if t.isHeader then [t] else [] := by
  unfold headers
  rw [List.filter_append]
  cases opens : t.isHeader <;> simp [opens]

theorem boundaries_concat : boundaries (tokens ++ [t]) =
    boundaries tokens ++ if t.isHeader || t.isTerminator then [t] else [] := by
  unfold boundaries
  rw [List.filter_append]
  cases bounds : t.isHeader || t.isTerminator <;> simp [bounds]

theorem openHeader?_header (opens : t.isHeader = true) :
    openHeader? (tokens ++ [t]) = some t := by
  unfold openHeader?
  rw [boundaries_concat]
  simp [opens]

theorem openHeader?_terminator (closes : t.isTerminator = true) :
    openHeader? (tokens ++ [t]) = none := by
  unfold openHeader?
  rw [boundaries_concat]
  simp [Token.not_isHeader closes, closes]

theorem openHeader?_line (other : t.isHeader = false) (goesOn : t.isTerminator = false) :
    openHeader? (tokens ++ [t]) = openHeader? tokens := by
  unfold openHeader?
  rw [boundaries_concat]
  simp [other, goesOn]

theorem scopeNumber_header (opens : t.isHeader = true) :
    scopeNumber (tokens ++ [t]) = (headers tokens).length + 1 := by
  unfold scopeNumber
  rw [openHeader?_header opens, headers_concat]
  simp [opens]

theorem scopeNumber_line (other : t.isHeader = false) (goesOn : t.isTerminator = false) :
    scopeNumber (tokens ++ [t]) = scopeNumber tokens := by
  unfold scopeNumber
  rw [openHeader?_line other goesOn, headers_concat]
  simp [other]

theorem scopeNumber_of_closed (idle : openHeader? tokens = none) : scopeNumber tokens = 0 := by
  unfold scopeNumber
  rw [idle]
  rfl

theorem openHeader?_mem {header : Token} (opened : openHeader? tokens = some header) :
    header ∈ tokens ∧ header.isHeader = true := by
  obtain ⟨last, opens⟩ := Option.filter_eq_some_iff.mp opened
  exact ⟨(List.mem_filter.mp (List.mem_of_getLast? last)).1, opens⟩

theorem scopeNumber_of_open {header : Token} (opened : openHeader? tokens = some header) :
    scopeNumber tokens ≠ 0 := by
  have member : header ∈ headers tokens := List.mem_filter.mpr (openHeader?_mem opened)
  have positive := List.length_pos_of_mem member
  unfold scopeNumber
  rw [opened, Option.isSome_some, if_pos rfl]
  omega

theorem scopeNumber_le (tokens : List Token) : scopeNumber tokens ≤ (headers tokens).length := by
  unfold scopeNumber
  split
  · exact Nat.le_refl _
  · exact Nat.zero_le _

/-- Places before the last one are those of the sequence without it. -/
theorem concat_getElem? {i : Nat} {s : Token} (found : (tokens ++ [t])[i]? = some s) :
    (tokens[i]? = some s ∧ (tokens ++ [t]).take i = tokens.take i ∧ i < tokens.length) ∨
      (s = t ∧ (tokens ++ [t]).take i = tokens ∧ i = tokens.length) := by
  have inside := (List.getElem?_eq_some_iff.mp found).1
  rw [List.length_append, List.length_singleton] at inside
  by_cases before : i < tokens.length
  · rw [List.getElem?_append_left before] at found
    exact .inl ⟨found, List.take_append_of_le_length (Nat.le_of_lt before), before⟩
  · have last : i = tokens.length := by omega
    subst last
    rw [List.getElem?_append_right (Nat.le_refl _), Nat.sub_self] at found
    exact .inr ⟨(Option.some.inj found).symm, List.take_left, rfl⟩

theorem getElem?_concat {i : Nat} {s : Token} (found : tokens[i]? = some s) :
    (tokens ++ [t])[i]? = some s ∧ (tokens ++ [t]).take i = tokens.take i := by
  have inside := (List.getElem?_eq_some_iff.mp found).1
  exact ⟨by rw [List.getElem?_append_left inside, found],
    List.take_append_of_le_length (Nat.le_of_lt inside)⟩

theorem hasLabel_concat_iff {number : Nat} {name : String} :
    HasLabel (tokens ++ [t]) number name ↔ HasLabel tokens number name ∨
      (t.placedLabel? = some name ∧ scopeNumber tokens = number) := by
  constructor
  · rintro ⟨i, s, found, places, inScope⟩
    rcases concat_getElem? found with ⟨before, same, _⟩ | ⟨rfl, same, _⟩
    · exact .inl ⟨i, s, before, places, same ▸ inScope⟩
    · exact .inr ⟨places, same ▸ inScope⟩
  · rintro (⟨i, s, found, places, inScope⟩ | ⟨places, inScope⟩)
    · obtain ⟨here, same⟩ := getElem?_concat (t := t) found
      exact ⟨i, s, here, places, same.symm ▸ inScope⟩
    · refine ⟨tokens.length, t, ?_, places, ?_⟩
      · rw [List.getElem?_append_right (Nat.le_refl _), Nat.sub_self]
        rfl
      · rw [List.take_left, inScope]

/-- No label belongs to a function that has not been opened. -/
theorem HasLabel.number_le {number : Nat} {name : String} (labelled : HasLabel tokens number name) :
    number ≤ (headers tokens).length := by
  obtain ⟨i, _, _, _, rfl⟩ := labelled
  exact Nat.le_trans (scopeNumber_le _) ((List.take_sublist i tokens).filter _).length_le

theorem functionNames_concat : functionNames (tokens ++ [t]) =
    functionNames tokens ++ if t.isHeader then t.args.head?.toList else [] := by
  unfold functionNames
  rw [headers_concat, List.filterMap_append]
  cases opens : t.isHeader with
  | false => rfl
  | true =>
    cases first : t.args.head? with
    | none => simp [first]
    | some name => simp [first]

theorem functionNames_of_other (other : t.isHeader = false) :
    functionNames (tokens ++ [t]) = functionNames tokens := by
  rw [functionNames_concat, other]
  exact List.append_nil _

theorem hasLabel_of_unplaced {number : Nat} {name : String} (unplaced : t.placedLabel? = none) :
    HasLabel (tokens ++ [t]) number name ↔ HasLabel tokens number name := by
  rw [hasLabel_concat_iff, unplaced]
  simp

theorem nodup_functionNames_concat : (mainName :: functionNames (tokens ++ [t])).Nodup ↔
    (mainName :: functionNames tokens).Nodup ∧ (t.isHeader = true →
      ∀ name, t.args.head? = some name → name ∉ mainName :: functionNames tokens) := by
  cases opens : t.isHeader with
  | false =>
    rw [functionNames_of_other opens]
    exact ⟨fun distinct => ⟨distinct, nofun⟩, And.left⟩
  | true =>
    rw [functionNames_concat, if_pos opens]
    cases first : t.args.head? with
    | none =>
      rw [Option.toList_none, List.append_nil]
      exact ⟨fun distinct => ⟨distinct, nofun⟩, And.left⟩
    | some name =>
      rw [Option.toList_some, ← List.cons_append, ← List.concat_eq_append, List.nodup_concat]
      constructor
      · rintro ⟨new, distinct⟩
        refine ⟨distinct, ?_⟩
        rintro _ _ ⟨⟩
        exact new
      · exact fun ⟨distinct, new⟩ => ⟨new rfl name rfl, distinct⟩

end Concat

section Orderly

variable {tokens : List Token} {t : Token}

theorem orderly_nil : Orderly [] :=
  ⟨nofun, nofun, by decide, nofun, nofun, nofun⟩

/-- What comes before a token of an orderly sequence is orderly. -/
theorem Orderly.front (orderly : Orderly (tokens ++ [t])) : Orderly tokens := by
  refine ⟨?_, ?_, ?_, ?_, ?_, ?_⟩
  · intro i s found
    apply orderly.alternate i s
    rw [boundaries_concat, List.getElem?_append_left (List.getElem?_eq_some_iff.mp found).1, found]
  · exact fun s member => orderly.headers s (List.mem_append_left _ member)
  · have names := orderly.names
    rw [functionNames_concat, ← List.cons_append] at names
    exact (List.nodup_append.mp names).1
  · exact fun s member => orderly.ends s (List.mem_append_left _ member)
  · exact fun s member => orderly.labels s (List.mem_append_left _ member)
  · intro i j s u name before first second places also
    obtain ⟨here, upto⟩ := getElem?_concat (t := t) first
    obtain ⟨there, uptoThere⟩ := getElem?_concat (t := t) second
    have differ := orderly.apart i j s u name before here there places also
    rwa [upto, uptoThere] at differ

/-- Behind an orderly sequence a function is open exactly if the number of headers and ends is odd. -/
theorem Orderly.open_iff (orderly : Orderly tokens) :
    openHeader? tokens = none ↔ (boundaries tokens).length % 2 = 0 := by
  unfold openHeader?
  rcases List.eq_nil_or_concat (boundaries tokens) with none | ⟨before, last, parts⟩
  · rw [none]
    exact ⟨fun _ => rfl, fun _ => rfl⟩
  · have alternate := orderly.alternate before.length last (by rw [parts]; simp)
    rw [parts, List.concat_eq_append, List.getLast?_concat, Option.filter_some, List.length_append,
      List.length_singleton]
    by_cases opens : last.isHeader = true
    · have even := alternate.mp opens
      rw [if_pos opens]
      constructor
      · intro none
        cases none
      · omega
    · have odd : ¬ before.length % 2 = 0 := fun even => opens (alternate.mpr even)
      rw [if_neg opens]
      exact ⟨fun _ => by omega, fun _ => rfl⟩

/-- A token that bounds a function goes on alternately. -/
theorem Orderly.alternate_concat (orderly : Orderly tokens)
    (turn : (t.isHeader || t.isTerminator) = true → (t.isHeader = true ↔ openHeader? tokens = none)) :
    ∀ i s, (boundaries (tokens ++ [t]))[i]? = some s → (s.isHeader = true ↔ i % 2 = 0) := by
  intro i s found
  rw [boundaries_concat] at found
  by_cases bounds : (t.isHeader || t.isTerminator) = true
  · rw [if_pos bounds] at found
    rcases concat_getElem? found with ⟨before, _, _⟩ | ⟨rfl, _, rfl⟩
    · exact orderly.alternate i s before
    · rw [turn bounds, orderly.open_iff]
  · rw [if_neg bounds, List.append_nil] at found
    exact orderly.alternate i s found

/-- A label that its scope does not have yet is apart from all others. -/
theorem Orderly.apart_concat (orderly : Orderly tokens)
    (fresh : ∀ name, t.placedLabel? = some name → ¬ HasLabel tokens (scopeNumber tokens) name) :
    ∀ i j s u name, i < j → (tokens ++ [t])[i]? = some s → (tokens ++ [t])[j]? = some u →
      s.placedLabel? = some name → u.placedLabel? = some name →
      scopeNumber ((tokens ++ [t]).take i) ≠ scopeNumber ((tokens ++ [t]).take j) := by
  intro i j s u name before first second places also
  rcases concat_getElem? second with ⟨there, uptoThere, inside⟩ | ⟨rfl, uptoThere, rfl⟩
  · rcases concat_getElem? first with ⟨here, upto, _⟩ | ⟨_, _, last⟩
    · rw [upto, uptoThere]
      exact orderly.apart i j s u name before here there places also
    · omega
  · rcases concat_getElem? first with ⟨here, upto, _⟩ | ⟨_, _, last⟩
    · rw [upto, uptoThere]
      intro same
      exact fresh name also ⟨i, s, here, places, same⟩
    · omega

theorem Orderly.fresh (orderly : Orderly (tokens ++ [t])) {name : String}
    (places : t.placedLabel? = some name) : ¬ HasLabel tokens (scopeNumber tokens) name := by
  rintro ⟨i, s, found, also, inScope⟩
  obtain ⟨here, upto⟩ := getElem?_concat (t := t) found
  have inside := (List.getElem?_eq_some_iff.mp found).1
  have last : (tokens ++ [t])[tokens.length]? = some t := by simp
  have differ := orderly.apart i tokens.length s t name inside here last also places
  rw [upto, List.take_left] at differ
  exact differ inScope

/-- A header comes outside of functions, and an end inside of one. -/
theorem Orderly.turn (orderly : Orderly (tokens ++ [t]))
    (bounds : (t.isHeader || t.isTerminator) = true) :
    t.isHeader = true ↔ openHeader? tokens = none := by
  have alternate := orderly.alternate (boundaries tokens).length t (by
    rw [boundaries_concat, if_pos bounds]
    simp)
  rw [alternate, orderly.front.open_iff]

/-- A token keeps a sequence orderly behind which it comes. -/
structure Follows (tokens : List Token) (t : Token) : Prop where
  turn : (t.isHeader || t.isTerminator) = true → (t.isHeader = true ↔ openHeader? tokens = none)
  header : t.isHeader = true → t.args ≠ [] ∧ ∀ text ∈ t.args, Text.isIdentifier text = true
  name : t.isHeader = true →
    ∀ name, t.args.head? = some name → name ∉ mainName :: functionNames tokens
  ends : t.isTerminator = true → t.args = []
  label : t.kind = .keyword .label → ∃ name, t.args = [name] ∧ Text.isIdentifier name = true
  fresh : ∀ name, t.placedLabel? = some name → ¬ HasLabel tokens (scopeNumber tokens) name

theorem orderly_concat_iff : Orderly (tokens ++ [t]) ↔ Orderly tokens ∧ Follows tokens t := by
  constructor
  · intro orderly
    have last : t ∈ tokens ++ [t] := List.mem_append_right _ (List.mem_singleton_self t)
    exact ⟨orderly.front, orderly.turn, orderly.headers t last,
      (nodup_functionNames_concat.mp orderly.names).2, orderly.ends t last, orderly.labels t last,
      fun _ => orderly.fresh⟩
  · rintro ⟨orderly, follows⟩
    refine ⟨orderly.alternate_concat follows.turn, ?_,
      nodup_functionNames_concat.mpr ⟨orderly.names, follows.name⟩, ?_, ?_,
      orderly.apart_concat follows.fresh⟩
    · rw [List.forall_mem_append, List.forall_mem_singleton]
      exact ⟨orderly.headers, follows.header⟩
    · rw [List.forall_mem_append, List.forall_mem_singleton]
      exact ⟨orderly.ends, follows.ends⟩
    · rw [List.forall_mem_append, List.forall_mem_singleton]
      exact ⟨orderly.labels, follows.label⟩

end Orderly

end Tokens

namespace Nesting

open Tokens

/-- What has been read so far tells of the tokens which function is open, which functions there are, and
which labels the main scope and the open function have. -/
structure Reads (n : Nesting) (tokens : List Token) : Prop where
  current : n.current.map OpenFunction.header = openHeader? tokens
  named : ∀ f, n.current = some f → f.header.args.head? = some f.name
  names : n.functions.map Scope.name ++ (n.current.map OpenFunction.name).toList =
    functionNames tokens
  main : ∀ name, name ∈ labelNames n.main ↔ HasLabel tokens 0 name
  inside : ∀ f, n.current = some f →
    ∀ name, name ∈ labelNames f.body ↔ HasLabel tokens (scopeNumber tokens) name

variable {n next : Nesting} {tokens : List Token} {t : Token}

theorem start_reads : start.Reads [] := by
  have none : ∀ number name, ¬ HasLabel [] number name := by
    rintro number name ⟨i, t, found, _⟩
    cases found
  refine ⟨rfl, nofun, rfl, ?_, nofun⟩
  intro name
  exact ⟨nofun, fun labelled => absurd labelled (none 0 name)⟩

theorem Reads.idle_iff (reads : n.Reads tokens) : n.current = none ↔ openHeader? tokens = none := by
  rw [← reads.current, Option.map_eq_none_iff]

theorem Reads.names_of_idle (reads : n.Reads tokens) (idle : n.current = none) :
    n.functions.map Scope.name = functionNames tokens := by
  rw [← reads.names, idle]
  exact (List.append_nil _).symm

/-- The labels of the scope that the next token belongs to. -/
theorem Reads.body (reads : n.Reads tokens) (name : String) :
    name ∈ labelNames n.body ↔ HasLabel tokens (scopeNumber tokens) name := by
  unfold Nesting.body
  cases current : n.current with
  | none =>
    rw [scopeNumber_of_closed (reads.idle_iff.mp current)]
    exact reads.main name
  | some f => exact reads.inside f current name

theorem Reads.label_fresh_iff (reads : n.Reads tokens) (name : String) :
    (∀ other ∈ n.body, other.isLabel = true → other.mnemonic ≠ name) ↔
      ¬ HasLabel tokens (scopeNumber tokens) name := by
  rw [← reads.body, labelNames, List.mem_map]
  constructor
  · rintro fresh ⟨other, member, named⟩
    obtain ⟨inside, labelled⟩ := List.mem_filter.mp member
    exact fresh other inside labelled named
  · intro absent other inside labelled named
    exact absent ⟨other, List.mem_filter.mpr ⟨inside, labelled⟩, named⟩

theorem Reads.function_fresh_iff (reads : n.Reads tokens) (idle : n.current = none) (name : String) :
    (∀ s ∈ n.functions, s.name ≠ name) ↔ name ∉ functionNames tokens := by
  rw [← reads.names_of_idle idle, List.mem_map]
  exact ⟨fun fresh ⟨s, member, named⟩ => fresh s member named,
    fun absent s member named => absent ⟨s, member, named⟩⟩

theorem bounds_of_inBody (inside : t.InBody) : t.isHeader = false ∧ t.isTerminator = false := by
  obtain ⟨noHeader, noEnd⟩ := inside.not_function
  exact ⟨Bool.eq_false_iff.mpr fun yes => noHeader (Token.isHeader_iff.mp yes),
    Bool.eq_false_iff.mpr fun yes => noEnd (Token.isTerminator_iff.mp yes)⟩

theorem placedLabel?_of_bound {word : Keyword} (keyword : t.kind = .keyword word)
    (bound : word ≠ .label) : t.placedLabel? = none := by
  unfold Token.placedLabel?
  rw [keyword]
  cases word with
  | label => exact absurd rfl bound
  | function => rfl
  | finish => rfl

/-- A line in the body of a scope is read at its end, with the label that it places. -/
theorem Reads.pushed (reads : n.Reads tokens) (inside : t.InBody) :
    (n.push t.kept).Reads (tokens ++ [t]) := by
  obtain ⟨noHeader, noEnd⟩ := bounds_of_inBody inside
  have names : functionNames (tokens ++ [t]) = functionNames tokens :=
    functionNames_of_other noHeader
  have added (body : List Token) (name : String) : name ∈ labelNames (body ++ [t.kept]) ↔
      name ∈ labelNames body ∨ t.placedLabel? = some name := by
    rw [labelNames_append, inside.labelNames_kept, List.mem_append, Option.mem_toList]
  have same : openHeader? (tokens ++ [t]) = openHeader? tokens := openHeader?_line noHeader noEnd
  have number : scopeNumber (tokens ++ [t]) = scopeNumber tokens :=
    scopeNumber_line noHeader noEnd
  unfold push
  cases current : n.current with
  | none =>
    have idle := scopeNumber_of_closed (reads.idle_iff.mp current)
    refine ⟨?_, nofun, ?_, ?_, nofun⟩
    · rw [same, ← reads.current, current]
    · rw [names, ← reads.names, current]
    · intro name
      rw [added, reads.main, hasLabel_concat_iff, idle]
      simp
  | some f =>
    have opened : openHeader? tokens = some f.header := by
      rw [← reads.current, current]
      rfl
    have positive := scopeNumber_of_open opened
    refine ⟨?_, ?_, ?_, ?_, ?_⟩
    · rw [same, opened]
      rfl
    · intro g found
      cases found
      exact reads.named f current
    · rw [names, ← reads.names, current]
      rfl
    · intro name
      rw [reads.main, hasLabel_concat_iff]
      simp [positive]
    · intro g found name
      cases found
      rw [added, reads.inside f current, hasLabel_concat_iff, number]
      simp

/-- What has been read keeps telling of the tokens. -/
theorem Reads.step (reads : n.Reads tokens) (stepped : n.Step t next) :
    next.Reads (tokens ++ [t]) := by
  cases stepped with
  | line inside _ _ => exact reads.pushed inside
  | opens name params header idle args _ _ _ =>
    have opens := Token.isHeader_iff.mpr header
    have unplaced := placedLabel?_of_bound header nofun
    refine ⟨(openHeader?_header opens).symm, ?_, ?_, ?_, ?_⟩
    · intro f found
      cases found
      rw [args]
      rfl
    · rw [functionNames_concat, if_pos opens, args, ← reads.names_of_idle idle]
      rfl
    · intro label
      rw [hasLabel_of_unplaced unplaced, reads.main]
    · intro f found label
      cases found
      rw [labelNames_params, hasLabel_of_unplaced unplaced, scopeNumber_header opens]
      constructor
      · intro member
        cases member
      · intro early
        have bound := early.number_le
        omega
  | closes f terminator opened _ =>
    have closes := Token.isTerminator_iff.mpr terminator
    have noHeader := Token.not_isHeader closes
    refine ⟨(openHeader?_terminator closes).symm, nofun, ?_, ?_, nofun⟩
    · rw [functionNames_of_other noHeader, ← reads.names, opened, List.map_append]
      simp [Scope.ofBody]
    · intro label
      rw [hasLabel_of_unplaced (placedLabel?_of_bound terminator nofun), reads.main]

/-- A token that is taken in keeps the sequence orderly. -/
theorem Reads.follows (reads : n.Reads tokens) (stepped : n.Step t next) : Follows tokens t := by
  cases stepped with
  | line inside named fresh =>
    obtain ⟨noHeader, noEnd⟩ := bounds_of_inBody inside
    refine ⟨by simp [noHeader, noEnd], by simp [noHeader], by simp [noHeader], by simp [noEnd], ?_,
      fun name places => (reads.label_fresh_iff name).mp (fresh name places)⟩
    intro keyword
    rcases inside with instruction | placed
    · rw [keyword] at instruction
      cases instruction
    · obtain ⟨name, places⟩ := Option.isSome_iff_exists.mp placed
      rcases Token.placedLabel?_eq_some places with ⟨label, _⟩ | ⟨_, args⟩
      · rw [keyword] at label
        cases label
      · exact ⟨name, args, named keyword name (args ▸ List.mem_singleton_self name)⟩
  | opens name params header idle args identifiers apart fresh =>
    have opens := Token.isHeader_iff.mpr header
    have noEnd := Token.not_isTerminator opens
    refine ⟨?_, ?_, ?_, by simp [noEnd], by simp [header], ?_⟩
    · exact fun _ => ⟨fun _ => reads.idle_iff.mp idle, fun _ => opens⟩
    · rw [args]
      exact fun _ => ⟨nofun, identifiers⟩
    · rw [args]
      rintro _ _ ⟨⟩
      rw [List.mem_cons, not_or]
      exact ⟨apart, (reads.function_fresh_iff idle name).mp fresh⟩
    · rw [placedLabel?_of_bound header nofun]
      exact nofun
  | closes f terminator opened bare =>
    have closes := Token.isTerminator_iff.mpr terminator
    have noHeader := Token.not_isHeader closes
    refine ⟨?_, by simp [noHeader], by simp [noHeader], fun _ => bare, by simp [terminator], ?_⟩
    · intro _
      rw [noHeader, ← reads.idle_iff, opened]
      exact ⟨nofun, nofun⟩
    · rw [placedLabel?_of_bound terminator nofun]
      exact nofun

/-- A token that keeps the sequence orderly is taken in. -/
theorem Reads.exists_step (reads : n.Reads tokens) (follows : Follows tokens t)
    (expanded : t.kind ≠ .directive) : ∃ next, n.Step t next := by
  have fresh : ∀ name, t.placedLabel? = some name →
      ∀ other ∈ n.body, other.isLabel = true → other.mnemonic ≠ name :=
    fun name places => (reads.label_fresh_iff name).mpr (follows.fresh name places)
  cases kind : t.kind with
  | directive => exact absurd kind expanded
  | instruction =>
    refine ⟨_, .line (.inl kind) ?_ fresh⟩
    rw [kind]
    exact nofun
  | label =>
    refine ⟨_, .line (.inr ?_) ?_ fresh⟩
    · unfold Token.placedLabel?
      rw [kind]
      rfl
    · rw [kind]
      exact nofun
  | keyword word =>
    cases word with
    | label =>
      obtain ⟨name, args, identifier⟩ := follows.label kind
      refine ⟨_, .line (.inr ?_) ?_ fresh⟩
      · unfold Token.placedLabel?
        rw [kind, args]
        rfl
      · intro _
        rw [args, List.forall_mem_singleton]
        exact identifier
    | function =>
      have opens := Token.isHeader_iff.mpr kind
      have idle := reads.idle_iff.mpr ((follows.turn (by rw [opens, Bool.true_or])).mp opens)
      obtain ⟨some, identifiers⟩ := follows.header opens
      obtain ⟨name, params, args⟩ := List.exists_cons_of_ne_nil some
      have new := follows.name opens name (by rw [args]; rfl)
      rw [List.mem_cons, not_or] at new
      exact ⟨_, .opens name params kind idle args (args ▸ identifiers) new.1
        ((reads.function_fresh_iff idle name).mpr new.2)⟩
    | finish =>
      have closes := Token.isTerminator_iff.mpr kind
      have noHeader := Token.not_isHeader closes
      have turn := follows.turn (by rw [closes, Bool.or_true])
      rw [noHeader, ← reads.idle_iff] at turn
      obtain ⟨f, opened⟩ := Option.ne_none_iff_exists'.mp fun idle => absurd (turn.mpr idle) nofun
      exact ⟨_, .closes f kind opened (follows.ends closes)⟩

/-- The tokens that are read so far tell whether the next one is taken in. -/
theorem Reads.accepts_iff (reads : n.Reads tokens) (orderly : Orderly tokens)
    (expanded : t.kind ≠ .directive) :
    (∃ next, n.accept t = .ok next) ↔ Orderly (tokens ++ [t]) := by
  rw [orderly_concat_iff, and_iff_right orderly]
  constructor
  · rintro ⟨next, accepted⟩
    exact reads.follows (accept_step accepted)
  · intro follows
    obtain ⟨next, stepped⟩ := reads.exists_step follows expanded
    exact ⟨next, accept_of_step stepped⟩

/-- All of an orderly sequence is read, and no other. -/
theorem reads_iff_orderly (tokens : List Token) (expanded : ∀ t ∈ tokens, t.kind ≠ .directive) :
    (∀ n, tokens.foldlM accept start = .ok n → n.Reads tokens) ∧
      ((∃ n, tokens.foldlM accept start = .ok n) ↔ Orderly tokens) := by
  induction tokens using List.reverseRecOn with
  | nil =>
    refine ⟨?_, fun _ => orderly_nil, fun _ => ⟨start, rfl⟩⟩
    intro n same
    cases same
    exact start_reads
  | append_singleton tokens t ih =>
    rw [List.forall_mem_append, List.forall_mem_singleton] at expanded
    obtain ⟨reads, orderly⟩ := ih expanded.1
    simp only [List.foldlM_append, bind_eq_ok, List.foldlM_cons, List.foldlM_nil, pure_eq_ok]
    refine ⟨?_, ?_, ?_⟩
    · rintro _ ⟨n, before, next, accepted, rfl⟩
      exact (reads n before).step (accept_step accepted)
    · rintro ⟨_, n, before, next, accepted, rfl⟩
      exact ((reads n before).accepts_iff (orderly.mp ⟨n, before⟩) expanded.2).mp ⟨next, accepted⟩
    · intro more
      obtain ⟨n, before⟩ := orderly.mpr more.front
      obtain ⟨next, accepted⟩ := ((reads n before).accepts_iff more.front expanded.2).mpr more
      exact ⟨next, n, before, next, accepted, rfl⟩

end Nesting

end Accumulator
