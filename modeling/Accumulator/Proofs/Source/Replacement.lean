import Accumulator.Proofs.Source.Substitution
import Accumulator.Proofs.Text.Run

set_option autoImplicit false

/-!
Substitution as the replacement of words. One constant is put in wherever its name is a word of the
text (`replaceWord_eq_mapRuns`). Where no value brings in a name, all constants are put in at once, and
their order does not matter.
-/

namespace Accumulator

open Source

namespace Source

/-- A run, or a value for the one run that is the word. -/
def swap (word value run : List Char) : List Char :=
  if run = word then value else run

theorem swap_other {word value : List Char} (isWord : Text.IsWord word) (c : Char)
    (other : Text.isWordChar c = false) : swap word value [c] = [c] := by
  apply if_neg
  rintro rfl
  have inside := isWord.2 c List.mem_cons_self
  rw [other] at inside
  exact Bool.false_ne_true inside

theorem endsWord_of_apart {text : List Char} (apart : Text.Apart text) : endsWord text = true := by
  cases text with
  | nil => rfl
  | cons c cs => rw [endsWord, apart c rfl, Bool.not_false]

section Occurrences

variable {word value run rest : List Char}

/-- An occurrence of a word does not reach beyond the run that it begins in. -/
theorem prefix_within (inside : ∀ c ∈ word, Text.isWordChar c = true) (apart : Text.Apart rest)
    (occurs : word <+: run ++ rest) : word <+: run := by
  by_cases short : word.length ≤ run.length
  · exact List.prefix_of_prefix_length_le occurs (List.prefix_append run rest) short
  · have longer : run <+: word :=
      List.prefix_of_prefix_length_le (List.prefix_append run rest) occurs (by omega)
    obtain ⟨beyond, rfl⟩ := longer
    obtain ⟨behind, parts⟩ := occurs
    rw [List.append_assoc] at parts
    have continued := List.append_cancel_left parts
    cases beyond with
    | nil => simp at short
    | cons c beyond =>
      rw [← continued] at apart
      have wordChar := inside c (by simp)
      rw [apart c rfl] at wordChar
      cases wordChar

/-- Behind a word character nothing is replaced up to the end of the run. -/
theorem replaceFrom_run (isWord : Text.IsWord word) (inside : ∀ c ∈ run, Text.isWordChar c = true)
    (apart : Text.Apart rest) (skip : Nat) (within : skip ≤ run.length) :
    replaceFrom word value false skip (run ++ rest) =
      run.drop skip ++ replaceFrom word value false 0 rest := by
  induction run generalizing skip with
  | nil =>
    obtain rfl : skip = 0 := Nat.le_zero.mp within
    rfl
  | cons c run ih =>
    rw [List.forall_mem_cons] at inside
    rw [List.cons_append]
    cases skip with
    | succ skip =>
      have later := ih inside.2 skip (Nat.le_of_succ_le_succ within)
      simp only [replaceFrom, inside.1, Bool.not_true, later, List.drop_succ_cons]
    | zero =>
      simp only [replaceFrom, inside.1, Bool.not_true, Bool.false_and, Bool.false_eq_true, ↓reduceIte]
      split
      · rename_i occurs
        rw [← List.cons_append] at occurs
        have begins := prefix_within isWord.2 apart (List.isPrefixOf_iff_prefix.mp occurs)
        obtain ⟨first, others, rfl⟩ := List.exists_cons_of_ne_nil isWord.1
        have length := begins.length_le
        rw [ih inside.2 _ (by simpa using length), ← List.append_assoc]
        congr 1
        exact List.prefix_iff_eq_append.mp begins
      · rw [ih inside.2 0 (Nat.zero_le _)]
        rfl

theorem replaceFrom_other (isWord : Text.IsWord word) {c : Char} (cs : List Char) (bounded : Bool)
    (other : Text.isWordChar c = false) :
    replaceFrom word value bounded 0 (c :: cs) = c :: replaceFrom word value true 0 cs := by
  have absent : ¬ word.isPrefixOf (c :: cs) = true := by
    rw [List.isPrefixOf_iff_prefix]
    intro begins
    obtain ⟨first, others, rfl⟩ := List.exists_cons_of_ne_nil isWord.1
    have inside := isWord.2 first List.mem_cons_self
    rw [(List.cons_prefix_cons.mp begins).1, other] at inside
    exact Bool.false_ne_true inside
  rw [replaceFrom, if_neg absent, other]
  rfl

/-- Where no word goes on it does not matter what came before. -/
theorem replaceFrom_apart (isWord : Text.IsWord word) (apart : Text.Apart rest) (bounded : Bool) :
    replaceFrom word value bounded 0 rest = replaceFrom word value true 0 rest := by
  cases rest with
  | nil => rfl
  | cons c cs =>
    rw [replaceFrom_other isWord cs bounded (apart c rfl), replaceFrom_other isWord cs true (apart c rfl)]

/-- A run is replaced as a whole, and only if it is the word. -/
theorem replaceFrom_word (isWord : Text.IsWord word) (isRun : Text.IsWord run)
    (apart : Text.Apart rest) :
    replaceFrom word value true 0 (run ++ rest) =
      swap word value run ++ replaceFrom word value true 0 rest := by
  obtain ⟨c, cs, rfl⟩ := List.exists_cons_of_ne_nil isRun.1
  obtain ⟨here, inside⟩ := List.forall_mem_cons.mp isRun.2
  rw [List.cons_append, replaceFrom, here]
  simp only [Bool.not_true, Bool.true_and]
  split
  · rename_i occurs
    rw [← List.cons_append] at occurs ⊢
    have begins := prefix_within isWord.2 apart (List.isPrefixOf_iff_prefix.mp occurs)
    have length := begins.length_le
    rw [replaceFrom_run isWord inside apart _ (by simp at length; omega),
      replaceFrom_apart isWord apart, List.drop_append_of_le_length length]
    unfold swap
    by_cases whole : c :: cs = word
    · have nothing : cs.drop (word.length - 1) = [] := by
        rw [← whole]
        exact List.drop_eq_nil_of_le (by simp)
      rw [if_pos whole, nothing, ← whole, List.drop_length, List.nil_append,
        endsWord_of_apart apart]
      rfl
    · -- The run goes on behind the occurrence, which is not bounded then.
      have touched := endsWord_inside rest isRun.2 begins whole
      obtain ⟨first, others, rfl⟩ := List.exists_cons_of_ne_nil isWord.1
      rw [if_neg whole, touched, if_neg Bool.false_ne_true, ← List.append_assoc]
      congr 1
      exact List.prefix_iff_eq_append.mp begins
  · rename_i absent
    have other : c :: cs ≠ word := by
      rintro rfl
      apply absent
      rw [← List.cons_append, List.isPrefixOf_iff_prefix]
      exact List.prefix_append _ rest
    rw [replaceFrom_run isWord inside apart 0 (Nat.zero_le _), replaceFrom_apart isWord apart, swap,
      if_neg other]
    rfl

/-- A word is replaced where it is a run of the text, and nowhere else. -/
theorem replaceWord_eq_mapRuns (isWord : Text.IsWord word) (text : List Char) :
    replaceWord word value text = Text.mapRuns (swap word value) text := by
  unfold replaceWord
  rw [if_neg (by rw [List.isEmpty_iff]; exact isWord.1)]
  induction text using Text.runs_induction with
  | nil => rfl
  | other c cs other ih =>
    rw [replaceFrom_other isWord cs true other, Text.mapRuns_cons (swap_other isWord) cs other, ih]
  | word run rest isRun apart ih =>
    rw [replaceFrom_word isWord isRun apart, Text.mapRuns_word _ isRun apart, ih]

end Occurrences

section Changes

variable {word value : List Char}

theorem length_flatMap_swap (word value : List Char) (pieces : List (List Char)) :
    (pieces.flatMap (swap word value)).length + pieces.count word * word.length =
      pieces.flatten.length + pieces.count word * value.length := by
  induction pieces with
  | nil => simp
  | cons piece rest ih =>
    rw [List.flatMap_cons, List.flatten_cons, List.length_append, List.length_append]
    unfold swap at ih ⊢
    by_cases same : piece = word
    · rw [if_pos same, same, List.count_cons_self, Nat.add_mul, Nat.add_mul]
      omega
    · rw [if_neg same, List.count_cons_of_ne same]
      omega

theorem eq_of_flatMap_swap (pieces : List (List Char)) (member : word ∈ pieces)
    (length : word.length = value.length) (same : pieces.flatMap (swap word value) = pieces.flatten) :
    value = word := by
  induction pieces with
  | nil => cases member
  | cons piece rest ih =>
    rw [List.flatMap_cons, List.flatten_cons, swap] at same
    split at same
    · rename_i here
      rw [here] at same
      exact (List.append_inj same length.symm).1
    · rename_i other
      rcases List.mem_cons.mp member with rfl | later
      · exact absurd rfl other
      · exact ih later (List.append_cancel_left same)

/-- A replacement leaves a text as it is only if the word is none of its runs, or stands for itself. -/
theorem mapRuns_swap_eq_self_iff (text : List Char) :
    Text.mapRuns (swap word value) text = text ↔ word ∉ Text.runs text ∨ value = word := by
  constructor
  · intro same
    rw [Classical.or_iff_not_imp_left, Classical.not_not]
    intro member
    have whole : (Text.runs text).flatMap (swap word value) = (Text.runs text).flatten :=
      same.trans (Text.flatten_runs text).symm
    have some : 0 < (Text.runs text).count word := List.count_pos_iff.mpr member
    -- The text keeps its length, and each occurrence adds the same difference to it.
    have length := length_flatMap_swap word value (Text.runs text)
    rw [whole] at length
    have equal := Nat.eq_of_mul_eq_mul_left some (Nat.add_left_cancel length)
    exact eq_of_flatMap_swap _ member equal whole
  · intro idle
    apply Text.mapRuns_eq_self
    intro run member
    unfold swap
    split
    · rename_i here
      rcases idle with absent | rfl
      · exact absurd (here ▸ member) absent
      · exact here.symm
    · rfl

end Changes

namespace Constants

/-- All names are identifiers, as directives define them. -/
def Named (c : Constants) : Prop :=
  ∀ entry ∈ c.entries, Text.isIdentifier entry.1 = true

/-- A run of a text, or the value that it is the name of. -/
def expandRun (value? : String → Option String) (run : List Char) : List Char :=
  match value? (String.ofList run) with
  | some value => value.toList
  | none => run

/-- A text with all words that are names replaced by their values at once. -/
def replaceWords (value? : String → Option String) (text : String) : String :=
  String.ofList (Text.mapRuns (expandRun value?) text.toList)

/-- No value that a text takes in brings a name along. -/
def Settled (value? : String → Option String) (text : List Char) : Prop :=
  ∀ run ∈ Text.runs text, ∀ value, value? (String.ofList run) = some value →
    ∀ inner ∈ Text.runs value.toList, value? (String.ofList inner) = none

theorem expandRun_of_some {value? : String → Option String} {run : List Char} {value : String}
    (found : value? (String.ofList run) = some value) : expandRun value? run = value.toList := by
  rw [expandRun, found]

theorem expandRun_of_none {value? : String → Option String} {run : List Char}
    (missing : value? (String.ofList run) = none) : expandRun value? run = run := by
  rw [expandRun, missing]

theorem expandRun_congr {first second : String → Option String} {run : List Char}
    (same : first (String.ofList run) = second (String.ofList run)) :
    expandRun first run = expandRun second run := by
  rw [expandRun, expandRun, same]

theorem ofList_ne {run : List Char} {name : String} (other : run ≠ name.toList) :
    String.ofList run ≠ name := by
  rintro rfl
  exact other String.toList_ofList.symm

/-- A constant is put in for the words that are its name. -/
theorem replace_eq_mapRuns {entry : String × String} (identifier : Text.isIdentifier entry.1 = true)
    (text : List Char) :
    replace text entry = Text.mapRuns (swap entry.1.toList entry.2.toList) text :=
  replaceWord_eq_mapRuns (Text.word_of_identifier identifier) text

theorem lookup_behind {name : String} {entry : String × String} {rest : List (String × String)}
    (other : name ≠ entry.1) : (entry :: rest).lookup name = rest.lookup name := by
  rw [List.lookup_cons, beq_eq_false_iff_ne.mpr other]

theorem lookup_none_behind {name : String} {entry : String × String}
    {rest : List (String × String)} (missing : (entry :: rest).lookup name = none) :
    rest.lookup name = none := by
  rw [List.lookup_eq_none_iff] at missing ⊢
  exact fun other member => missing other (List.mem_cons_of_mem _ member)

theorem settled_behind {entry : String × String} {rest : List (String × String)} {text : List Char}
    (isWord : Text.IsWord entry.1.toList) (settled : Settled ((entry :: rest).lookup ·) text) :
    Settled (rest.lookup ·) (Text.mapRuns (swap entry.1.toList entry.2.toList) text) := by
  intro run member value (found : rest.lookup (String.ofList run) = some value)
  rw [Text.runs_mapRuns (swap_other isWord), List.mem_flatMap] at member
  obtain ⟨place, inside, member⟩ := member
  by_cases named : place = entry.1.toList
  · -- The run comes from the value put in, where nothing is a name.
    have here : (entry :: rest).lookup (String.ofList place) = some entry.2 := by
      rw [named, String.ofList_toList, List.lookup_cons_self]
    rw [swap, if_pos named] at member
    have missing := lookup_none_behind (settled place inside entry.2 here run member)
    rw [missing] at found
    cases found
  · rw [swap, if_neg named, Text.runs_of_mem inside, List.mem_singleton] at member
    subst member
    have before : (entry :: rest).lookup (String.ofList run) = some value :=
      (lookup_behind (ofList_ne named)).trans found
    exact fun inner within => lookup_none_behind (settled run inside value before inner within)

/-- One after the other, the constants replace what they replace at once. -/
theorem foldl_replace (entries : List (String × String))
    (named : ∀ entry ∈ entries, Text.isIdentifier entry.1 = true) (text : List Char)
    (settled : Settled (entries.lookup ·) text) :
    entries.foldl replace text = Text.mapRuns (expandRun (entries.lookup ·)) text := by
  induction entries generalizing text with
  | nil => exact (Text.mapRuns_eq_self fun run _ => expandRun_of_none rfl).symm
  | cons entry rest ih =>
    rw [List.forall_mem_cons] at named
    have isWord : Text.IsWord entry.1.toList := Text.word_of_identifier named.1
    rw [List.foldl_cons, replace_eq_mapRuns named.1, ih named.2 _ (settled_behind isWord settled),
      Text.mapRuns_mapRuns (swap_other isWord)]
    apply List.flatMap_congr
    intro run member
    by_cases same : run = entry.1.toList
    · have found : (entry :: rest).lookup (String.ofList run) = some entry.2 := by
        rw [same, String.ofList_toList, List.lookup_cons_self]
      rw [swap, if_pos same, expandRun_of_some found]
      apply Text.mapRuns_eq_self
      intro inner within
      exact expandRun_of_none (lookup_none_behind (settled run member entry.2 found inner within))
    · rw [swap, if_neg same, Text.mapRuns, Text.runs_of_mem member, List.flatMap_singleton]
      exact expandRun_congr (lookup_behind (ofList_ne same)).symm

theorem Named.identifier {c : Constants} (named : c.Named) {name value : String}
    (found : c.get? name = some value) : Text.isIdentifier name = true := by
  obtain ⟨front, back, split, _⟩ := List.lookup_eq_some_iff.mp found
  exact named (name, value) (split ▸ List.mem_append_right front List.mem_cons_self)

/-- Where no value brings in a name, the constants are put in at once. -/
theorem substitute_of_settled {c : Constants} (named : c.Named) (argument : String)
    (settled : Settled c.get? argument.toList) :
    c.substitute argument = replaceWords c.get? argument := by
  unfold substitute replaceWords
  cases found : c.get? argument with
  | some value =>
    have isWord : Text.IsWord argument.toList :=
      Text.word_of_identifier (named.identifier found)
    rw [← String.ofList_toList (s := argument)] at found
    rw [Text.mapRuns_of_isWord _ isWord, expandRun_of_some found, String.ofList_toList]
  | none =>
    dsimp only
    rw [foldl_replace c.entries named argument.toList settled]
    rfl

end Constants

end Source

end Accumulator
