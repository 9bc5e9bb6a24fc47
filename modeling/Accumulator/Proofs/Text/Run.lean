import Accumulator.Text.Character
import Mathlib.Data.List.SplitBy

set_option autoImplicit false

/-!
A text in pieces: its words, which are the maximal runs of word characters, and the characters between
them. Pieces that are exchanged, words for any texts, do not grow together, so the pieces of the result
are those of the texts put in (`runs_mapRuns`).
-/

namespace Accumulator.Text

/-- The maximal runs of word characters of a text, and every other character as a run of its own. -/
def runs (text : List Char) : List (List Char) :=
  text.splitBy fun c d => isWordChar c && isWordChar d

def IsWord (run : List Char) : Prop :=
  run ≠ [] ∧ ∀ c ∈ run, isWordChar c = true

/-- No word goes on into a text. -/
def Apart (text : List Char) : Prop :=
  ∀ c ∈ text.head?, isWordChar c = false

/-- A text with another one in the place of each run. -/
def mapRuns (f : List Char → List Char) (text : List Char) : List Char :=
  (runs text).flatMap f

theorem runs_append (left right : List Char)
    (border : ∀ c ∈ left.getLast?, ∀ d ∈ right.head?, ¬ (isWordChar c = true ∧ isWordChar d = true)) :
    runs (left ++ right) = runs left ++ runs right := by
  apply List.splitBy_append
  intro c last d first
  have touching := border c last d first
  rw [← Bool.and_eq_true] at touching
  exact Bool.eq_false_iff.mpr touching

theorem runs_append_apart (left right : List Char) (apart : Apart right) :
    runs (left ++ right) = runs left ++ runs right := by
  apply runs_append
  intro c _ d first both
  rw [apart d first] at both
  exact Bool.false_ne_true both.2

theorem runs_cons {c : Char} (cs : List Char) (other : isWordChar c = false) :
    runs (c :: cs) = [c] :: runs cs := by
  have split := runs_append [c] cs fun d last _ _ both => by
    obtain rfl := Option.some.inj last
    exact Bool.false_ne_true (other.symm.trans both.1)
  exact split

theorem runs_of_isWord {run : List Char} (word : IsWord run) : runs run = [run] := by
  apply List.splitBy_of_isChain word.1
  apply List.Pairwise.isChain
  rw [List.pairwise_iff_forall_sublist]
  intro c d pair
  have first := word.2 c (pair.subset List.mem_cons_self)
  have second := word.2 d (pair.subset (List.mem_cons_of_mem _ List.mem_cons_self))
  rw [first, second]
  rfl

/-- A word is the first run of a text that goes on apart from it. -/
theorem runs_word {run rest : List Char} (word : IsWord run) (apart : Apart rest) :
    runs (run ++ rest) = run :: runs rest := by
  rw [runs_append_apart run rest apart, runs_of_isWord word]
  rfl

/-- A run taken by itself is one run. -/
theorem runs_of_mem {run text : List Char} (member : run ∈ runs text) : runs run = [run] :=
  List.splitBy_of_isChain (List.ne_nil_of_mem_splitBy member) (List.isChain_of_mem_splitBy member)

@[simp] theorem flatten_runs (text : List Char) : (runs text).flatten = text :=
  List.flatten_splitBy _ text

/-- A text is built up from its end by characters that belong to no word and by whole words. -/
@[elab_as_elim]
theorem runs_induction {motive : List Char → Prop} (nil : motive [])
    (other : ∀ c cs, isWordChar c = false → motive cs → motive (c :: cs))
    (word : ∀ run rest, IsWord run → Apart rest → motive rest → motive (run ++ rest))
    (text : List Char) : motive text := by
  -- The word that goes on into the text is collected, and complete where the text stands apart.
  suffices behind : ∀ run, (∀ c ∈ run, isWordChar c = true) → motive (run ++ text) from
    behind [] nofun
  have complete (run rest : List Char) (inside : ∀ c ∈ run, isWordChar c = true)
      (apart : Apart rest) (holds : motive rest) : motive (run ++ rest) := by
    cases run with
    | nil => exact holds
    | cons d run => exact word (d :: run) rest ⟨List.cons_ne_nil d run, inside⟩ apart holds
  induction text with
  | nil =>
    intro run inside
    exact complete run [] inside nofun nil
  | cons c cs ih =>
    intro run inside
    cases kind : isWordChar c with
    | true =>
      have longer := ih (run ++ [c]) fun d member => by
        rcases List.mem_append.mp member with before | last
        · exact inside d before
        · rwa [List.mem_singleton.mp last]
      rwa [List.append_assoc] at longer
    | false =>
      refine complete run (c :: cs) inside ?_ (other c cs kind (ih [] nofun))
      intro d first
      obtain rfl := Option.some.inj first
      exact kind

section Exchange

variable (f : List Char → List Char)

@[simp] theorem mapRuns_nil : mapRuns f [] = [] := rfl

theorem mapRuns_of_isWord {run : List Char} (word : IsWord run) : mapRuns f run = f run := by
  unfold mapRuns
  rw [runs_of_isWord word, List.flatMap_singleton]

theorem mapRuns_word {run rest : List Char} (word : IsWord run) (apart : Apart rest) :
    mapRuns f (run ++ rest) = f run ++ mapRuns f rest := by
  unfold mapRuns
  rw [runs_word word apart, List.flatMap_cons]

theorem mapRuns_append (left right : List Char)
    (border : ∀ c ∈ left.getLast?, ∀ d ∈ right.head?, ¬ (isWordChar c = true ∧ isWordChar d = true)) :
    mapRuns f (left ++ right) = mapRuns f left ++ mapRuns f right := by
  unfold mapRuns
  rw [runs_append left right border, List.flatMap_append]

theorem mapRuns_append_apart (left right : List Char) (apart : Apart right) :
    mapRuns f (left ++ right) = mapRuns f left ++ mapRuns f right := by
  unfold mapRuns
  rw [runs_append_apart left right apart, List.flatMap_append]

variable {f} (keeps : ∀ c, isWordChar c = false → f [c] = [c])
include keeps

theorem mapRuns_cons {c : Char} (cs : List Char) (other : isWordChar c = false) :
    mapRuns f (c :: cs) = c :: mapRuns f cs := by
  unfold mapRuns
  rw [runs_cons cs other, List.flatMap_cons, keeps c other]
  rfl

theorem mapRuns_apart {text : List Char} (apart : Apart text) : Apart (mapRuns f text) := by
  cases text with
  | nil => exact apart
  | cons c cs =>
    rw [mapRuns_cons keeps cs (apart c rfl)]
    exact apart

/-- The runs of a text with its words exchanged are those of the texts in their places. -/
theorem runs_mapRuns (text : List Char) :
    runs (mapRuns f text) = (runs text).flatMap fun run => runs (f run) := by
  induction text using runs_induction with
  | nil => rfl
  | other c cs kind ih =>
    rw [mapRuns_cons keeps cs kind, runs_cons _ kind, runs_cons _ kind, List.flatMap_cons,
      keeps c kind, runs_cons [] kind, ih]
    rfl
  | word run rest word apart ih =>
    rw [mapRuns_word f word apart, runs_append_apart _ _ (mapRuns_apart keeps apart), ih,
      runs_word word apart, List.flatMap_cons]

theorem mapRuns_mapRuns (g : List Char → List Char) (text : List Char) :
    mapRuns g (mapRuns f text) = (runs text).flatMap fun run => mapRuns g (f run) := by
  change (runs (mapRuns f text)).flatMap g = _
  rw [runs_mapRuns keeps, List.flatMap_assoc]
  rfl

end Exchange

theorem mapRuns_eq_self {f : List Char → List Char} {text : List Char}
    (same : ∀ run ∈ runs text, f run = run) : mapRuns f text = text := by
  have pieces : (runs text).flatMap f = (runs text).flatMap id :=
    List.flatMap_congr same
  unfold mapRuns
  rw [pieces, List.flatMap_id, flatten_runs]

end Accumulator.Text
