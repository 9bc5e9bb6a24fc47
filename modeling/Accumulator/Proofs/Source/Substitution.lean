import Accumulator.Proofs.Checked
import Accumulator.Proofs.Text.Character
import Accumulator.Source.Expansion

set_option autoImplicit false

/-!
Constants in the arguments of tokens. A name is one word, so nothing in it is replaced unless it is
itself a constant, and tokens are expanded under the constants of those before them.
-/

namespace Accumulator

open Source

namespace Source

section Words

variable {word value text : List Char}

/-- Behind the beginning of a run its next character follows. -/
theorem endsWord_inside {run : List Char} (rest : List Char)
    (inside : ∀ c ∈ run, Text.isWordChar c = true) (begins : word <+: run) (other : run ≠ word) :
    endsWord (run.drop word.length ++ rest) = false := by
  cases behind : run.drop word.length with
  | nil =>
    have whole := List.prefix_iff_eq_append.mp begins
    rw [behind, List.append_nil] at whole
    exact absurd whole.symm other
  | cons next more =>
    have member : next ∈ run := List.mem_of_mem_drop (behind ▸ List.mem_cons_self)
    rw [List.cons_append, endsWord, inside next member]
    rfl

/-- Behind a word character no occurrence is bounded until the word ends. -/
theorem replaceFrom_inside (filled : word ≠ []) (skip : Nat)
    (inside : ∀ c ∈ text, Text.isWordChar c = true) :
    replaceFrom word value false skip text = text.drop skip := by
  induction text generalizing skip with
  | nil => cases skip <;> rfl
  | cons c cs ih =>
    rw [List.forall_mem_cons] at inside
    cases skip with
    | succ skip => simp only [replaceFrom, inside.1, Bool.not_true, ih _ inside.2, List.drop_succ_cons]
    | zero =>
      simp only [replaceFrom, inside.1, Bool.not_true, ih _ inside.2, Bool.false_and, List.drop_zero,
        Bool.false_eq_true, ↓reduceIte]
      split
      · rename_i occurs
        obtain ⟨first, rest, rfl⟩ := List.exists_cons_of_ne_nil filled
        have parts := List.prefix_iff_eq_append.mp (List.isPrefixOf_iff_prefix.mp occurs)
        rw [List.length_cons, List.drop_succ_cons] at parts
        exact parts
      · rfl

theorem fillGaps_inside (inside : ∀ c ∈ text, Text.isWordChar c = true) :
    fillGaps value false text = text := by
  induction text with
  | nil => rfl
  | cons c cs ih =>
    rw [List.forall_mem_cons] at inside
    simp only [fillGaps, inside.1, Bool.not_true, Bool.and_false, Bool.false_eq_true, ↓reduceIte,
      List.nil_append, ih inside.2]

/-- In a text that is one word nothing is replaced but the whole. -/
theorem replaceWord_other (inside : ∀ c ∈ text, Text.isWordChar c = true) (filled : text ≠ [])
    (other : word ≠ text) : replaceWord word value text = text := by
  obtain ⟨c, cs, rfl⟩ := List.exists_cons_of_ne_nil filled
  rw [List.forall_mem_cons] at inside
  unfold replaceWord
  by_cases empty : word = []
  · simp only [empty, List.isEmpty_nil, ↓reduceIte, fillGaps, inside.1, Bool.not_true, Bool.and_false,
      Bool.false_eq_true, List.nil_append, fillGaps_inside inside.2]
  · rw [if_neg (by rwa [List.isEmpty_iff]), replaceFrom, inside.1]
    simp only [Bool.not_true, replaceFrom_inside empty _ inside.2, List.drop_zero]
    split
    · rename_i occurs
      have parts := List.prefix_iff_eq_append.mp (List.isPrefixOf_iff_prefix.mp occurs)
      have touched : endsWord ((c :: cs).drop word.length) = false := by
        have follows := endsWord_inside [] (List.forall_mem_cons.mpr inside)
          (List.isPrefixOf_iff_prefix.mp occurs) (Ne.symm other)
        rwa [List.append_nil] at follows
      rw [touched]
      obtain ⟨first, rest, rfl⟩ := List.exists_cons_of_ne_nil empty
      exact parts
    · rfl

end Words

namespace Constants

theorem lookup_put (name value other : String) (apart : other ≠ name)
    (entries : List (String × String)) :
    (put name value entries).lookup other = entries.lookup other := by
  have differs : (other == name) = false := beq_eq_false_iff_ne.mpr apart
  induction entries with
  | nil => simp only [put, List.lookup_cons, differs, List.lookup_nil]
  | cons entry rest ih =>
    obtain ⟨key, old⟩ := entry
    unfold put
    by_cases same : key = name
    · rw [if_pos same, List.lookup_cons, List.lookup_cons, same, differs]
    · rw [if_neg same, List.lookup_cons, List.lookup_cons, ih]

theorem get?_define (c : Constants) {name value other : String} (apart : other ≠ name) :
    (c.define name value).get? other = c.get? other :=
  lookup_put name value other apart c.entries

/-- The constants of the tokens behind others. -/
def behind (c : Constants) (tokens : List Token) : Constants :=
  (c.definitions tokens).foldl (fun known (name, value) => known.define name value) c

theorem get?_behind (c : Constants) (tokens : List Token) (name : String)
    (undefined : name ∉ (c.definitions tokens).map Prod.fst) :
    (c.behind tokens).get? name = c.get? name := by
  unfold behind
  generalize c.definitions tokens = defined at undefined
  induction defined generalizing c with
  | nil => rfl
  | cons first rest ih =>
    rw [List.map_cons, List.mem_cons, not_or] at undefined
    rw [List.foldl_cons, ih _ undefined.2, get?_define c undefined.1]

theorem behind_directive {c : Constants} {t : Token} {defined : String × String}
    (directive : t.kind = .directive) (defines : c.definition t = .ok defined) (rest : List Token) :
    c.behind (t :: rest) = (c.define defined.1 defined.2).behind rest := by
  unfold behind
  rw [definitions, if_pos directive, defines]
  rfl

theorem behind_token {c : Constants} {t token : Token} (other : t.kind ≠ .directive)
    (expands : c.expandToken t = .ok token) (rest : List Token) :
    c.behind (t :: rest) = c.behind rest := by
  unfold behind
  rw [definitions, if_neg other, expands]

/-- Expansion goes on behind tokens with the constants that they define. -/
theorem expand_append (c : Constants) (before after : List Token) :
    c.expand (before ++ after) = do
      let first ← c.expand before
      let second ← (c.behind before).expand after
      return first ++ second := by
  induction before generalizing c with
  | nil =>
    change c.expand after = c.expand after >>= pure
    rw [bind_pure]
  | cons t rest ih =>
    rw [List.cons_append, expand, expand]
    by_cases directive : t.kind = .directive
    · rw [if_pos directive, if_pos directive]
      cases defines : c.definition t with
      | error f => rfl
      | ok defined =>
        rw [behind_directive directive defines]
        exact ih (c.define defined.1 defined.2)
    · rw [if_neg directive, if_neg directive]
      cases expands : c.expandToken t with
      | error f => rfl
      | ok token =>
        rw [behind_token directive expands, ih c]
        cases c.expand rest with
        | error f => rfl
        | ok first => cases (c.behind rest).expand after <;> rfl

theorem expand_append_eq_ok {c : Constants} {before after expanded : List Token} :
    c.expand (before ++ after) = .ok expanded ↔ ∃ first second, c.expand before = .ok first ∧
      (c.behind before).expand after = .ok second ∧ expanded = first ++ second := by
  rw [expand_append]
  simp only [bind_eq_ok, pure_eq_ok]
  constructor
  · rintro ⟨first, here, second, later, rfl⟩
    exact ⟨first, second, here, later, rfl⟩
  · rintro ⟨first, second, here, later, rfl⟩
    exact ⟨first, here, second, later, rfl⟩

/-- A word that is no constant stands for itself. -/
theorem substitute_word (c : Constants) {word : String} (filled : word.toList ≠ [])
    (inside : ∀ ch ∈ word.toList, Text.isWordChar ch = true) (undefined : c.get? word = none) :
    c.substitute word = word := by
  unfold substitute
  rw [undefined]
  unfold get? at undefined
  rw [List.lookup_eq_none_iff] at undefined
  have unchanged : c.entries.foldl replace word.toList = word.toList := by
    generalize c.entries = entries at undefined
    induction entries with
    | nil => rfl
    | cons entry rest ih =>
      rw [List.forall_mem_cons] at undefined
      have other : entry.1.toList ≠ word.toList := by
        intro same
        have names := String.toList_injective same
        rw [names] at undefined
        simp at undefined
      rw [List.foldl_cons]
      unfold replace
      rw [replaceWord_other inside filled other]
      exact ih undefined.2
  dsimp only
  rw [unchanged, String.ofList_toList]

theorem substitute_name (c : Constants) {name : String}
    (identifier : Text.isIdentifier name = true) (undefined : c.get? name = none) :
    c.substitute name = name :=
  c.substitute_word (Text.word_of_identifier identifier).1 (Text.word_of_identifier identifier).2
    undefined

/-- A line whose arguments are names, and neither constants nor expressions, is expanded to itself. -/
theorem expandToken_plain (c : Constants) (t : Token)
    (plain : ∀ text ∈ t.args, Text.isIdentifier text = true ∧ c.get? text = none ∧
      afterMarker? text.toList = none) : c.expandToken t = .ok t := by
  have args : (t.args.mapM fun argument => evalMarked (c.substitute argument)) = .ok t.args := by
    rw [mapM_eq_ok, List.forall₂_same]
    intro text member
    obtain ⟨identifier, undefined, unmarked⟩ := plain text member
    rw [c.substitute_name identifier undefined]
    unfold evalMarked
    rw [unmarked]
  unfold expandToken
  rw [args]

end Constants

end Source

end Accumulator
