import Accumulator.Text.Line
import Mathlib.Data.List.TakeWhile

set_option autoImplicit false

/-!
Lines that are joined are the lines of the text that results, and trimming takes blanks from both
ends of a line and nothing else.
-/

namespace Accumulator.Text

/-- The characters of a text that is written in two parts. -/
theorem toList_append_of {s t : String} {cs ds : List Char} (first : s.toList = cs)
    (second : t.toList = ds) : (s ++ t).toList = cs ++ ds := by
  rw [String.toList_append, first, second]

/-- A character that ends no line, not even together with the next one, belongs to the first line. -/
theorem lines_push {c : Char} {cs : List Char} (feed : c ≠ '\n')
    (unpaired : c = '\r' → cs.head? ≠ some '\n') :
    lines (c :: cs) = match lines cs with
      | [] => [[c]]
      | line :: rest => (c :: line) :: rest := by
  rw [lines.eq_def]
  split
  · contradiction
  · rename_i same
    exact absurd (List.cons.inj same).1 feed
  · rename_i same
    obtain ⟨carriage, rfl⟩ := List.cons.inj same
    exact absurd rfl (unpaired carriage)
  · rename_i same
    cases same
    rfl

theorem lines_cons {c : Char} (cs : List Char) (feed : c ≠ '\n') (carriage : c ≠ '\r') :
    lines (c :: cs) = match lines cs with
      | [] => [[c]]
      | line :: rest => (c :: line) :: rest :=
  lines_push feed fun same => absurd same carriage

theorem lines_ne_nil (c : Char) (cs : List Char) : lines (c :: cs) ≠ [] := by
  rw [lines.eq_def]
  split
  · exact absurd ‹_› (List.cons_ne_nil _ _)
  · exact List.cons_ne_nil _ _
  · exact List.cons_ne_nil _ _
  · split <;> exact List.cons_ne_nil _ _

/-- The lines above a line feed and those below it are read apart. -/
theorem lines_feed (above below : List Char) :
    lines (above ++ '\n' :: below) = lines (above ++ ['\n']) ++ lines below := by
  induction above with
  | nil => rfl
  | cons c above ih =>
    rw [List.cons_append, List.cons_append]
    by_cases feed : c = '\n'
    · rw [feed]
      exact congrArg ([] :: ·) ih
    · cases above with
      | nil =>
        by_cases carriage : c = '\r'
        · rw [carriage]
          rfl
        · rw [lines_push feed fun same => absurd same carriage,
            lines_push feed fun same => absurd same carriage]
          rfl
      | cons next above =>
        by_cases pair : c = '\r' ∧ next = '\n'
        · -- Both characters end one line, as the second one does alone.
          obtain ⟨rfl, rfl⟩ := pair
          exact ih
        · have unpaired (rest : List Char) : c = '\r' → (next :: rest).head? ≠ some '\n' :=
            fun carriage same => pair ⟨carriage, Option.some.inj same⟩
          have filled := lines_ne_nil next (above ++ ['\n'])
          rw [List.cons_append, List.cons_append] at ih ⊢
          rw [lines_push feed (unpaired _), lines_push feed (unpaired _), ih]
          cases upper : lines (next :: (above ++ ['\n'])) with
          | nil => exact absurd upper filled
          | cons line rest => rfl

/-- A line without line ends of its own is the first of a text that goes on after a line feed. -/
theorem lines_append_feed (line rest : List Char) (plain : ∀ c ∈ line, c ≠ '\n' ∧ c ≠ '\r') :
    lines (line ++ '\n' :: rest) = line :: lines rest := by
  induction line with
  | nil => rfl
  | cons c line ih =>
    obtain ⟨feed, carriage⟩ := plain c List.mem_cons_self
    have later := ih fun other member => plain other (List.mem_cons_of_mem _ member)
    rw [List.cons_append, lines_cons _ feed carriage, later]

/-- A text without line feeds is one line. -/
theorem lines_of_unbroken {line : List Char} (filled : line ≠ []) (unbroken : '\n' ∉ line) :
    lines line = [line] := by
  induction line with
  | nil => exact absurd rfl filled
  | cons c line ih =>
    rw [List.mem_cons, not_or] at unbroken
    have feed : c ≠ '\n' := fun same => unbroken.1 same.symm
    cases line with
    | nil =>
      have unpaired : c = '\r' → ([] : List Char).head? ≠ some '\n' := fun _ => nofun
      rw [lines_push feed unpaired, lines]
    | cons next line =>
      have unpaired : (next :: line).head? ≠ some '\n' := fun same =>
        unbroken.2 (List.mem_cons.mpr (.inl (Option.some.inj same).symm))
      rw [lines_push feed fun _ => unpaired, ih (List.cons_ne_nil _ _) unbroken.2]

theorem lines_last (line : List Char) (filled : line ≠ [])
    (plain : ∀ c ∈ line, c ≠ '\n' ∧ c ≠ '\r') : lines line = [line] :=
  lines_of_unbroken filled fun member => (plain _ member).1 rfl

/-- No line holds a line feed. -/
theorem lines_unbroken (text : List Char) : ∀ line ∈ lines text, '\n' ∉ line := by
  induction text using lines.induct with
  | case1 => exact nofun
  | case2 cs ih =>
    rw [lines, List.forall_mem_cons]
    exact ⟨List.not_mem_nil, ih⟩
  | case3 cs ih =>
    rw [lines, List.forall_mem_cons]
    exact ⟨List.not_mem_nil, ih⟩
  | case4 c cs feed pair none ih =>
    rw [lines.eq_4 c cs feed pair, none, List.forall_mem_singleton, List.mem_singleton]
    exact fun same => feed same.symm
  | case5 c cs feed pair line rest split ih =>
    rw [split, List.forall_mem_cons] at ih
    rw [lines.eq_4 c cs feed pair, split, List.forall_mem_cons, List.mem_cons, not_or]
    exact ⟨⟨fun same => feed same.symm, ih.1⟩, ih.2⟩

theorem length_lines_cons {c : Char} {cs : List Char} (feed : c ≠ '\n') (filled : cs ≠ []) :
    (lines (c :: cs)).length = (lines cs).length := by
  cases cs with
  | nil => exact absurd rfl filled
  | cons next cs =>
    by_cases pair : c = '\r' ∧ next = '\n'
    · obtain ⟨rfl, rfl⟩ := pair
      rfl
    · have unpaired : c = '\r' → (next :: cs).head? ≠ some '\n' :=
        fun carriage same => pair ⟨carriage, Option.some.inj same⟩
      rw [lines_push feed unpaired]
      cases split : lines (next :: cs) with
      | nil => exact absurd split (lines_ne_nil next cs)
      | cons line rest => rfl

/-- A text that ends with a line feed has as many lines as line feeds. -/
theorem length_lines_ended (text : List Char) :
    (lines (text ++ ['\n'])).length = text.count '\n' + 1 := by
  induction text with
  | nil => rfl
  | cons c text ih =>
    by_cases feed : c = '\n'
    · rw [feed, List.count_cons_self, ← ih]
      rfl
    · rw [List.cons_append, length_lines_cons feed (by simp), ih, List.count_cons_of_ne feed]

/-- Lines joined by line feeds are the lines of the text, with or without a line feed at its end. -/
theorem lines_intercalate (rows : List (List Char)) (filled : ∀ row ∈ rows, row ≠ [])
    (plain : ∀ row ∈ rows, ∀ c ∈ row, c ≠ '\n' ∧ c ≠ '\r') :
    lines (['\n'].intercalate rows) = rows ∧
      (rows ≠ [] → lines (['\n'].intercalate rows ++ ['\n']) = rows) := by
  induction rows with
  | nil => exact ⟨rfl, absurd rfl⟩
  | cons row rows ih =>
    have here := plain row List.mem_cons_self
    cases rows with
    | nil =>
      rw [List.intercalate_singleton, lines_append_feed row [] here]
      exact ⟨lines_last row (filled row List.mem_cons_self) here, fun _ => rfl⟩
    | cons next rows =>
      obtain ⟨bare, ended⟩ := ih (fun other member => filled other (List.mem_cons_of_mem _ member))
        fun other member => plain other (List.mem_cons_of_mem _ member)
      rw [List.intercalate_cons_cons, List.append_assoc, List.append_assoc, List.append_assoc]
      simp only [List.singleton_append]
      rw [lines_append_feed _ _ here, lines_append_feed _ _ here, bare,
        ended (List.cons_ne_nil _ _)]
      exact ⟨rfl, fun _ => rfl⟩

theorem trimEnd_append (cs : List Char) :
    ∃ back, cs = trimEnd cs ++ back ∧ ∀ c ∈ back, isBlank c = true := by
  induction cs with
  | nil => exact ⟨[], rfl, nofun⟩
  | cons c cs ih =>
    obtain ⟨back, parts, blank⟩ := ih
    unfold trimEnd
    split
    · rename_i none
      rw [none, List.nil_append] at parts
      split
      · rename_i first
        refine ⟨c :: cs, rfl, ?_⟩
        rw [List.forall_mem_cons]
        exact ⟨first, parts ▸ blank⟩
      · exact ⟨back, by rw [parts]; rfl, blank⟩
    · exact ⟨back, congrArg (c :: ·) parts, blank⟩

theorem trimEnd_of_unblank (cs : List Char) (unblank : ∀ c ∈ cs, isBlank c = false) :
    trimEnd cs = cs := by
  induction cs with
  | nil => rfl
  | cons c cs ih =>
    rw [List.forall_mem_cons] at unblank
    unfold trimEnd
    rw [ih unblank.2, unblank.1]
    cases cs <;> rfl

/-- What is trimmed off a line is blank. -/
theorem trim_append (cs : List Char) :
    ∃ front back, cs = front ++ (trim cs ++ back) ∧ (∀ c ∈ front, isBlank c = true) ∧
      ∀ c ∈ back, isBlank c = true := by
  obtain ⟨back, parts, blank⟩ := trimEnd_append (cs.dropWhile isBlank)
  refine ⟨cs.takeWhile isBlank, back, ?_, List.all_eq_true.mp List.all_takeWhile, blank⟩
  unfold trim
  rw [← parts, List.takeWhile_append_dropWhile]

theorem trim_of_unblank (cs : List Char) (unblank : ∀ c ∈ cs, isBlank c = false) :
    trim cs = cs := by
  unfold trim
  cases cs with
  | nil => rfl
  | cons c cs =>
    rw [List.dropWhile_cons_of_neg (by simp [unblank c]), trimEnd_of_unblank _ unblank]

theorem trim_inside (cs : List Char) : trim cs <:+: cs := by
  obtain ⟨front, back, parts, _⟩ := trim_append cs
  exact ⟨front, back, by rw [List.append_assoc, ← parts]⟩

theorem trimEnd_cons {c : Char} (cs : List Char) (unblank : isBlank c = false) :
    trimEnd (c :: cs) = c :: trimEnd cs := by
  rw [trimEnd]
  split
  · rename_i none
    rw [unblank, none]
    rfl
  · rfl

theorem trimEnd_trimEnd (cs : List Char) : trimEnd (trimEnd cs) = trimEnd cs := by
  induction cs with
  | nil => rfl
  | cons c cs ih =>
    cases kept : trimEnd cs with
    | nil =>
      cases blank : isBlank c with
      | true => simp [trimEnd, kept, blank]
      | false => rw [trimEnd_cons cs blank, kept, trimEnd_cons [] blank, trimEnd]
    | cons d ds =>
      have whole : trimEnd (c :: cs) = c :: d :: ds := by rw [trimEnd, kept]
      rw [whole, trimEnd, ← kept, ih, kept]

theorem trim_trim (cs : List Char) : trim (trim cs) = trim cs := by
  unfold trim
  cases rest : cs.dropWhile isBlank with
  | nil => rfl
  | cons c kept =>
    have unblank : isBlank c = false := by
      have first := List.head?_dropWhile_not isBlank cs
      rw [rest] at first
      exact first
    rw [trimEnd_cons kept unblank, List.dropWhile_cons_of_neg (by simp [unblank]),
      trimEnd_cons _ unblank, trimEnd_trimEnd]

/-- A line is trimmed to nothing exactly if it is blank. -/
theorem trim_eq_nil_iff (cs : List Char) : trim cs = [] ↔ cs.all isBlank = true := by
  constructor
  · intro empty
    obtain ⟨front, back, parts, before, behind⟩ := trim_append cs
    rw [parts, empty, List.nil_append, List.all_append, List.all_eq_true.mpr before,
      List.all_eq_true.mpr behind]
    rfl
  · intro blank
    unfold trim
    rw [List.dropWhile_eq_nil_iff.mpr (List.all_eq_true.mp blank)]
    rfl

theorem fields_blank (c : Char) (cs : List Char) (blank : isBlank c = true) :
    fields (c :: cs) = fields cs := by
  unfold fields
  rw [List.splitOnP_cons_eq_if_modifyHead, if_pos blank, List.filter_cons_of_neg (by simp)]

theorem fields_blanks (front cs : List Char) (blank : ∀ c ∈ front, isBlank c = true) :
    fields (front ++ cs) = fields cs := by
  induction front with
  | nil => rfl
  | cons c front ih =>
    rw [List.forall_mem_cons] at blank
    rw [List.cons_append, fields_blank c _ blank.1, ih blank.2]

/-- Blanks at the end of a line split off empty pieces only. -/
theorem splitOnP_append_blanks (cs back : List Char) (blank : ∀ c ∈ back, isBlank c = true) :
    (cs ++ back).splitOnP isBlank = cs.splitOnP isBlank ++ List.replicate back.length [] := by
  induction cs with
  | nil =>
    induction back with
    | nil => rfl
    | cons c back ih =>
      rw [List.forall_mem_cons] at blank
      rw [List.nil_append] at ih ⊢
      rw [List.splitOnP_cons_eq_if_modifyHead, if_pos blank.1, ih blank.2]
      rfl
  | cons c cs ih =>
    rw [List.cons_append, List.splitOnP_cons_eq_if_modifyHead, List.splitOnP_cons_eq_if_modifyHead,
      ih]
    split
    · rfl
    · cases pieces : cs.splitOnP isBlank with
      | nil => exact absurd pieces (List.splitOnP_ne_nil _ _)
      | cons piece pieces => rfl

/-- A line has the same fields before and after it is trimmed. -/
theorem fields_trim (cs : List Char) : fields (trim cs) = fields cs := by
  obtain ⟨front, back, parts, before, behind⟩ := trim_append cs
  have whole := (congrArg fields parts).trans (fields_blanks front _ before)
  rw [whole]
  unfold fields
  rw [splitOnP_append_blanks _ _ behind, List.filter_append, List.filter_replicate]
  simp

/-- A line has no fields exactly if nothing is left of it when it is trimmed. -/
theorem fields_eq_nil_iff (cs : List Char) : fields cs = [] ↔ trim cs = [] := by
  constructor
  · intro none
    induction cs with
    | nil => rfl
    | cons c cs ih =>
      cases blank : isBlank c with
      | true =>
        rw [fields_blank c cs blank] at none
        unfold trim
        rw [List.dropWhile_cons_of_pos blank]
        exact ih none
      | false =>
        -- The first piece begins with the character.
        unfold fields at none
        rw [List.splitOnP_cons_eq_if_modifyHead, if_neg (by simp [blank])] at none
        cases pieces : cs.splitOnP isBlank with
        | nil => exact absurd pieces (List.splitOnP_ne_nil _ _)
        | cons piece pieces' =>
          rw [pieces] at none
          cases none
  · intro none
    rw [← fields_trim, none]
    rfl

/-- A word before a blank is the first field of a line. -/
theorem fields_word {word : List Char} (rest : List Char) (filled : word ≠ [])
    (unblank : ∀ c ∈ word, isBlank c = false) :
    fields (word ++ ' ' :: rest) = word :: fields rest := by
  unfold fields
  rw [List.splitOnP_append_cons_of_forall_mem unblank ' ' (by decide),
    List.filter_cons_of_pos (by simpa using filled)]

theorem fields_last {word : List Char} (filled : word ≠ [])
    (unblank : ∀ c ∈ word, isBlank c = false) : fields word = [word] := by
  unfold fields
  rw [List.splitOnP_eq_singleton unblank, List.filter_cons_of_pos (by simpa using filled),
    List.filter_nil]

end Accumulator.Text
