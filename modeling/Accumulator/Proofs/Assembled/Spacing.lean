import Accumulator.Proofs.Program.Moved

set_option autoImplicit false

/-!
Texts that differ in comments, blanks and line ends only. Their lines have the same fields, so both
are one list of contents whose lines are put in different places.
-/

namespace Accumulator

open Source

/-- The fields of each line that has some before its comment, with the number of the line, of lines
that are numbered from `first` on. -/
def filledFrom (first : Nat) (lines : List (List Char)) : List (List (List Char) × Nat) :=
  ((lines.map fun line => Text.fields (stripComment line)).zipIdx first).filter
    fun (fields, _) => !fields.isEmpty

def filledLines (text : List Char) : List (List (List Char) × Nat) :=
  filledFrom 1 (Text.lines text)

/-- Results of two texts that are the same apart from the places of the lines: the same words, or a
fault of the same cause on filled lines of the same rank. -/
inductive Corresponds (first second : List Char) :
    Except Fault Assembly → Except Fault Assembly → Prop
  | assembled (a b : Assembly) (words : a.words = b.words) :
      Corresponds first second (.ok a) (.ok b)
  | rejected (f g : Fault) (cause : f.cause = g.cause) (i : Nat)
      (line : (filledLines first)[i]?.map Prod.snd = some f.origin.line)
      (other : (filledLines second)[i]?.map Prod.snd = some g.origin.line) :
      Corresponds first second (.error f) (.error g)

namespace Source.Content

def fields (c : Content) : List String := c.mnemonic :: c.args

theorem ofLines_filled (first : Nat) (lines : List (List Char)) :
    (ofLines first lines).map (fun c => (c.fields, c.origin.line)) =
      (filledFrom first lines).map (Prod.map (List.map String.ofList) id) := by
  unfold ofLines filledFrom
  induction lines generalizing first with
  | nil => rfl
  | cons line rest ih =>
    rw [List.map_cons, List.zipIdx_cons, List.zipIdx_cons, List.filterMap_cons, List.filter_cons]
    dsimp only
    unfold ofLine?
    cases Text.fields (stripComment line) with
    | nil => exact ih (first + 1)
    | cons mnemonic args => exact congrArg _ (ih (first + 1))

/-- Contents with these fields, each on the line with the number of its rank. -/
def ranked (rows : List (List String)) : List Content :=
  rows.zipIdx.map fun (fields, i) => ⟨⟨i, ""⟩, fields.headD "", fields.tail⟩

/-- Puts lines that are numbered by their ranks where those of a list of contents stand. -/
def placing (contents : List Content) (o : Origin) : Origin :=
  (contents[o.line]?.map origin).getD o

/-- All contents are ranked ones that are put in their places. -/
theorem ranked_placed (contents : List Content) :
    (ranked (contents.map fields)).map (moved (placing contents)) = contents := by
  unfold ranked
  apply List.ext_getElem?
  intro i
  rw [List.map_map, List.getElem?_map, List.getElem?_zipIdx, List.getElem?_map]
  cases found : contents[i]? with
  | none => rfl
  | some c => simp [moved, placing, fields, found]

theorem ranked_origin {rows : List (List String)} {c : Content} (member : c ∈ ranked rows) :
    ∃ i, i < rows.length ∧ c.origin = ⟨i, ""⟩ := by
  obtain ⟨⟨fields, i⟩, placed, rfl⟩ := List.mem_map.mp member
  exact ⟨i, List.snd_lt_of_mem_zipIdx placed, rfl⟩

end Source.Content

/-- Contents that are those of the filled lines of a text. -/
def Source.Content.Fill (contents : List Content) (text : List Char) : Prop :=
  contents.map (fun c => (c.fields, c.origin.line)) =
    (filledLines text).map (Prod.map (List.map String.ofList) id)

section Ranks

variable {contents : List Content} {text : List Char}

theorem Source.Content.Fill.rows (fill : Content.Fill contents text) :
    contents.map fields = ((filledLines text).map Prod.fst).map (List.map String.ofList) := by
  have rows := congrArg (List.map Prod.fst) fill
  rw [List.map_map, List.map_map] at rows
  rw [List.map_map]
  exact rows

/-- The line that a rank is put on is the filled line of this rank. -/
theorem Source.Content.Fill.placed (fill : Content.Fill contents text) (i : Nat)
    (inside : i < contents.length) :
    (filledLines text)[i]?.map Prod.snd = some (placing contents ⟨i, ""⟩).line := by
  have here := congrArg (fun rows => rows[i]?.map Prod.snd) fill
  rw [List.getElem?_map, List.getElem?_map, Option.map_map, Option.map_map,
    List.getElem?_eq_getElem inside] at here
  unfold placing
  rw [List.getElem?_eq_getElem inside]
  exact here.symm

/-- Of a text, only the fields of its lines count for what is assembled. Where the lines stand
counts for the origins. -/
theorem Assembly.ofSource_ranked (text : List Char) :
    ∃ contents, Content.Fill contents text ∧
      ofSource text = movedResult (Content.placing contents) (moved (Content.placing contents))
        (ofContents (Content.ranked (contents.map Content.fields))) := by
  refine ⟨Content.ofLines 1 (Text.lines text), Content.ofLines_filled 1 _, ?_⟩
  rw [ofSource_eq_ofContents, ← ofContents_moved, Content.ranked_placed]

end Ranks

/-- Texts whose filled lines have the same fields have the same words, or they are rejected for the
same cause on corresponding lines. -/
theorem assembly_ignores_spacing (first second : List Char)
    (same : (filledLines first).map Prod.fst = (filledLines second).map Prod.fst) :
    Corresponds first second (Assembly.ofSource first) (Assembly.ofSource second) := by
  obtain ⟨contents, fill, assembled⟩ := Assembly.ofSource_ranked first
  obtain ⟨others, filled, reassembled⟩ := Assembly.ofSource_ranked second
  have rows : others.map Content.fields = contents.map Content.fields := by
    rw [fill.rows, filled.rows, same]
  rw [rows] at reassembled
  rw [assembled, reassembled]
  cases ranked : Assembly.ofContents (Content.ranked (contents.map Content.fields)) with
  | ok a => exact .assembled _ _ rfl
  | error f =>
    obtain ⟨c, member, origin⟩ := Assembly.content_of_fault ranked
    obtain ⟨i, inside, rank⟩ := Content.ranked_origin member
    have length := congrArg List.length rows
    rw [List.length_map] at inside
    rw [List.length_map, List.length_map] at length
    have blamed : f.origin = ⟨i, ""⟩ := origin.symm.trans rank
    refine .rejected _ _ rfl i ?_ ?_
    · rw [fill.placed i inside, ← blamed]
      rfl
    · rw [filled.placed i (length ▸ inside), ← blamed]
      rfl

def denseText : List Char := "VAR n\nMOVLW 7\nMOVWF n".toList

/-- The same fields, with comments, blank lines, other blanks and other line ends. -/
def looseText : List Char :=
  "// one cell\r\n\tVAR   n\r\n\r\n  MOVLW\t7 ; seven\nMOVWF n//".toList

/-- Both have the same four words, and with a jump to nowhere at the end both are rejected for it. -/
theorem looseText_corresponds :
    (∃ a b, Assembly.ofSource denseText = .ok a ∧ Assembly.ofSource looseText = .ok b ∧
      a.words = b.words ∧ a.words.length = 4) ∧
    ∃ f g, Assembly.ofSource (denseText ++ "\nGOTO nowhere".toList) = .error f ∧
      Assembly.ofSource (looseText ++ "\n\n\tGOTO  nowhere ; lost".toList) = .error g ∧
      f.cause = g.cause ∧ f.cause = .labelNotFound "nowhere" ∧ f.origin.line = 4 := by
  constructor
  · have dense : ∃ a, Assembly.ofSource denseText = .ok a ∧ a.words.length = 4 := by decide +kernel
    obtain ⟨a, assembled, length⟩ := dense
    have corresponds := assembly_ignores_spacing denseText looseText (by decide +kernel)
    rw [assembled] at corresponds
    generalize Assembly.ofSource looseText = other at corresponds ⊢
    cases corresponds with
    | assembled _ b words => exact ⟨a, b, assembled, rfl, words, length⟩
  · have dense : Assembly.ofSource (denseText ++ "\nGOTO nowhere".toList) =
        .error ⟨⟨4, "GOTO nowhere"⟩, .labelNotFound "nowhere"⟩ := by
      decide +kernel
    have corresponds := assembly_ignores_spacing (denseText ++ "\nGOTO nowhere".toList)
      (looseText ++ "\n\n\tGOTO  nowhere ; lost".toList) (by decide +kernel)
    rw [dense] at corresponds
    generalize Assembly.ofSource (looseText ++ "\n\n\tGOTO  nowhere ; lost".toList) = other
      at corresponds ⊢
    cases corresponds with
    | rejected _ g cause => exact ⟨_, g, dense, rfl, cause, rfl, rfl⟩

end Accumulator
