import Accumulator.Proofs.Source.Moved

set_option autoImplicit false

/-!
Two texts with a line feed between them. Their tokens are those of the first text and then those of the
second, which stand as many lines further down as the first one has.
-/

namespace Accumulator

open Source

namespace Text

/-- A line feed at the end of a text ends its last line, and takes a carriage return along. Where no
line is open, it adds an empty one. -/
theorem lines_ended (text : List Char) :
    lines (text ++ ['\n']) = lines text ++ [[]] ∨
      ∃ rows line back, lines text = rows ++ [line ++ back] ∧ (back = [] ∨ back = ['\r']) ∧
        lines (text ++ ['\n']) = rows ++ [line] := by
  induction text with
  | nil => exact .inl rfl
  | cons c text ih =>
    rw [List.cons_append]
    by_cases feed : c = '\n'
    · rw [feed]
      rcases ih with fresh | ⟨rows, line, back, whole, tail, ended⟩
      · exact .inl (congrArg ([] :: ·) fresh)
      · exact .inr ⟨[] :: rows, line, back, congrArg ([] :: ·) whole, tail, congrArg ([] :: ·) ended⟩
    · cases text with
      | nil =>
        by_cases carriage : c = '\r'
        · rw [carriage]
          exact .inr ⟨[], [], ['\r'], rfl, .inr rfl, rfl⟩
        · rw [lines_cons _ feed carriage, List.nil_append, lines_cons _ feed carriage]
          exact .inr ⟨[], [c], [], rfl, .inl rfl, rfl⟩
      | cons next text =>
        by_cases pair : c = '\r' ∧ next = '\n'
        · obtain ⟨rfl, rfl⟩ := pair
          exact ih
        · have unpaired (rest : List Char) : c = '\r' → (next :: rest).head? ≠ some '\n' :=
            fun carriage same => pair ⟨carriage, Option.some.inj same⟩
          rw [List.cons_append] at ih ⊢
          rw [lines_push feed (unpaired _), lines_push feed (unpaired _)]
          rcases ih with fresh | ⟨rows, line, back, whole, tail, ended⟩
          · rw [fresh]
            cases upper : lines (next :: text) with
            | nil => exact absurd upper (lines_ne_nil next text)
            | cons first rest => exact .inl rfl
          · rw [whole, ended]
            cases rows with
            | nil => exact .inr ⟨[], c :: line, back, rfl, tail, rfl⟩
            | cons first rows => exact .inr ⟨(c :: first) :: rows, line, back, rfl, tail, rfl⟩

theorem trim_append_blank (cs : List Char) {c : Char} (blank : isBlank c = true) :
    trim (cs ++ [c]) = trim cs := by
  have ending (cs : List Char) : trimEnd (cs ++ [c]) = trimEnd cs := by
    induction cs with
    | nil => simp [trimEnd, blank]
    | cons d cs ih => rw [List.cons_append, trimEnd, trimEnd, ih]
  unfold trim
  rw [List.dropWhile_append]
  split
  · rename_i none
    rw [List.isEmpty_iff.mp none, List.dropWhile_cons_of_pos blank]
    rfl
  · exact ending _

theorem fields_append_blank (cs : List Char) {c : Char} (blank : isBlank c = true) :
    fields (cs ++ [c]) = fields cs := by
  rw [← fields_trim, trim_append_blank cs blank, fields_trim]

end Text

theorem stripComment_carriage (line : List Char) :
    stripComment (line ++ ['\r']) = stripComment line ∨
      stripComment (line ++ ['\r']) = stripComment line ++ ['\r'] := by
  fun_induction stripComment line with
  | case1 => exact .inr rfl
  | case2 => exact .inl rfl
  | case3 => exact .inl rfl
  | case4 c cs semicolon slashes ih =>
    have first : stripComment (c :: (cs ++ ['\r'])) = c :: stripComment (cs ++ ['\r']) := by
      apply stripComment.eq_4 c _ semicolon
      intro rest slash same
      cases cs with
      | nil => cases same
      | cons next cs => exact slashes cs slash (congrArg (· :: cs) (List.cons.inj same).1)
    rw [List.cons_append, first]
    rcases ih with same | longer
    · exact .inl (congrArg (c :: ·) same)
    · exact .inr (congrArg (c :: ·) longer)

namespace Source.Content

/-- A carriage return at the end of a line is not read. -/
theorem ofLine?_carriage (number : Nat) {line back : List Char} (tail : back = [] ∨ back = ['\r']) :
    ofLine? number (line ++ back) = ofLine? number line := by
  rcases tail with rfl | rfl
  · rw [List.append_nil]
  · unfold ofLine?
    rcases stripComment_carriage line with same | longer
    · rw [same]
    · rw [longer, Text.fields_append_blank _ (by decide), Text.trim_append_blank _ (by decide)]

theorem ofLines_ended (first : Nat) (text : List Char) :
    ofLines first (Text.lines (text ++ ['\n'])) = ofLines first (Text.lines text) := by
  rcases Text.lines_ended text with fresh | ⟨rows, line, back, whole, tail, ended⟩
  · rw [fresh, ofLines_append]
    exact List.append_nil _
  · rw [whole, ended, ofLines_append, ofLines_append, ofLines_cons, ofLines_cons,
      ofLine?_carriage _ tail]

end Source.Content

/-- The line in a text that has this number of lines more above it. -/
def Origin.lowered (above : Nat) (o : Origin) : Origin := ⟨o.line + above, o.text⟩

theorem Source.Content.ofLines_lowered (above first : Nat) (lines : List (List Char)) :
    (ofLines first lines).map (moved (Origin.lowered above)) = ofLines (first + above) lines :=
  ofLines_moved first lines fun _ _ _ => rfl

/-- Two texts with a line feed between them are read apart, and a fault of the first comes before those
of the second. The second text stands below the lines that the line feeds of the first one and the one
between them end. -/
theorem Source.Token.scan_below (above below : List Char) :
    Token.scan (above ++ '\n' :: below) = do
      let first ← Token.scan above
      let second ← movedResult (Origin.lowered (above.count '\n' + 1))
        (List.map (Token.moved (Origin.lowered (above.count '\n' + 1)))) (Token.scan below)
      return first ++ second := by
  unfold Token.scan
  rw [Token.ofLines_eq, Token.ofLines_eq, Token.ofLines_eq, Text.lines_feed, Content.ofLines_append,
    Content.ofLines_ended, ← Content.ofLines_lowered, List.mapM_append,
    movedResult_mapM _ _ (Content.token_moved _), Text.length_lines_ended]

theorem Source.Token.scan_joined (above below : List Char) :
    ∃ number, Token.scan (above ++ '\n' :: below) = do
      let first ← Token.scan above
      let second ← movedResult (Origin.lowered number) (List.map (Token.moved (Origin.lowered number)))
        (Token.scan below)
      return first ++ second :=
  ⟨_, Token.scan_below above below⟩

theorem Source.Token.scan_joined_eq_ok {above below : List Char} {tokens : List Token}
    (scanned : Token.scan (above ++ '\n' :: below) = .ok tokens) :
    ∃ first second move, Token.scan above = .ok first ∧ Token.scan below = .ok second ∧
      tokens = first ++ second.map (Token.moved move) := by
  obtain ⟨number, parts⟩ := Token.scan_joined above below
  rw [parts] at scanned
  simp only [bind_eq_ok, pure_eq_ok] at scanned
  obtain ⟨first, upper, lower, moved, rfl⟩ := scanned
  cases scanned : Token.scan below with
  | error f =>
    rw [scanned] at moved
    cases moved
  | ok second =>
    rw [scanned] at moved
    cases moved
    exact ⟨first, second, _, upper, rfl, rfl⟩

end Accumulator
