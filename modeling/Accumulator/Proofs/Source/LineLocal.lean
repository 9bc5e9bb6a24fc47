import Accumulator.Proofs.Source.Joined
import Accumulator.Proofs.Source.Origin

set_option autoImplicit false

/-!
Reading tokens is local to lines. A line with content gives one token, whose text is this content, and
the text is read again as the same token; where the line stands shows in its number only.
-/

namespace Accumulator

open Source

section Comments

/-- What a comment begins with. -/
def commentMarkers : List (List Char) := [['/', '/'], [';']]

def OpensComment (cs : List Char) : Prop := ∃ marker ∈ commentMarkers, marker <+: cs

/-- A part of a line is what stands before the first comment marker of the line, or the whole line
where there is none. -/
def Uncommented (part line : List Char) : Prop :=
  ∃ comment, line = part ++ comment ∧ (comment = [] ∨ OpensComment comment) ∧
    ∀ i < part.length, ¬ OpensComment (line.drop i)

def Unmarked (cs : List Char) : Prop := ∀ marker ∈ commentMarkers, ¬ marker <:+: cs

theorem not_opensComment_nil : ¬ OpensComment [] := by
  unfold OpensComment commentMarkers
  decide

theorem OpensComment.append {cs : List Char} (opens : OpensComment cs) (ds : List Char) :
    OpensComment (cs ++ ds) := by
  obtain ⟨marker, member, first⟩ := opens
  exact ⟨marker, member, first.trans (List.prefix_append cs ds)⟩

theorem unmarked_iff (cs : List Char) :
    Unmarked cs ↔ ∀ rest, rest <:+ cs → ¬ OpensComment rest := by
  constructor
  · rintro unmarked rest last ⟨marker, member, first⟩
    exact unmarked marker member (first.isInfix.trans last.isInfix)
  · intro closed marker member inside
    obtain ⟨rest, first, last⟩ := List.infix_iff_prefix_suffix.mp inside
    exact closed rest last ⟨marker, member, first⟩

theorem Unmarked.inside {cs ds : List Char} (unmarked : Unmarked cs) (inside : ds <:+: cs) :
    Unmarked ds :=
  fun marker member also => unmarked marker member (also.trans inside)

/-- No marker begins before the comment, and none begins in the part alone. -/
theorem Uncommented.unmarked {part line : List Char} (uncommented : Uncommented part line) :
    Unmarked part := by
  obtain ⟨comment, rfl, _, closed⟩ := uncommented
  rw [unmarked_iff]
  rintro rest ⟨front, rfl⟩ opens
  have filled : 0 < rest.length := by
    apply List.length_pos_of_ne_nil
    rintro rfl
    exact not_opensComment_nil opens
  apply closed front.length
  · rw [List.length_append]
    omega
  · rw [List.append_assoc, List.drop_left]
    exact opens.append comment

theorem stripComment_of_opens {cs : List Char} (opens : OpensComment cs) : stripComment cs = [] := by
  obtain ⟨marker, member, rest, rfl⟩ := opens
  rcases List.mem_cons.mp member with rfl | member
  · rfl
  · rw [List.mem_singleton.mp member]
    rfl

theorem stripComment_of_closed {c : Char} {cs : List Char} (closed : ¬ OpensComment (c :: cs)) :
    stripComment (c :: cs) = c :: stripComment cs := by
  apply stripComment.eq_4
  · rintro rfl
    exact closed ⟨[';'], by decide, cs, rfl⟩
  · rintro rest rfl rfl
    exact closed ⟨['/', '/'], by decide, rest, rfl⟩

theorem uncommented_stripComment (line : List Char) : Uncommented (stripComment line) line := by
  induction line with
  | nil => exact ⟨[], rfl, .inl rfl, nofun⟩
  | cons c line ih =>
    by_cases opens : OpensComment (c :: line)
    · rw [stripComment_of_opens opens]
      exact ⟨c :: line, rfl, .inr opens, nofun⟩
    · rw [stripComment_of_closed opens]
      obtain ⟨comment, parts, ending, closed⟩ := ih
      refine ⟨comment, congrArg (c :: ·) parts, ending, fun i less => ?_⟩
      cases i with
      | zero => exact opens
      | succ i => exact closed i (Nat.lt_of_succ_lt_succ less)

theorem stripComment_of_unmarked {cs : List Char} (unmarked : Unmarked cs) :
    stripComment cs = cs := by
  induction cs with
  | nil => rfl
  | cons c cs ih =>
    have closed := (unmarked_iff _).mp unmarked _ (List.suffix_refl _)
    rw [stripComment_of_closed closed, ih (unmarked.inside (List.suffix_cons c cs).isInfix)]

end Comments

section Lines

/-- What is left of a line without its comment and the blanks at both ends. -/
def lineContent (line : List Char) : List Char := Text.trim (stripComment line)

/-- The lines of a text that have content, each told by its number, from one on, and its content. -/
def contentLines (text : List Char) : List Origin :=
  ((Text.lines text).zipIdx 1).filterMap fun (line, number) =>
    if lineContent line = [] then none else some ⟨number, String.ofList (lineContent line)⟩

theorem unmarked_lineContent (line : List Char) : Unmarked (lineContent line) :=
  (uncommented_stripComment line).unmarked.inside (Text.trim_inside _)

theorem lineContent_lineContent (line : List Char) :
    lineContent (lineContent line) = lineContent line := by
  change Text.trim (stripComment (lineContent line)) = _
  rw [stripComment_of_unmarked (unmarked_lineContent line)]
  exact Text.trim_trim _

/-- The content of a line is read as the line itself is, on whatever line it stands. -/
theorem Source.Content.ofLine?_lineContent (number other : Nat) (line : List Char) :
    Content.ofLine? other (lineContent line) =
      (Content.ofLine? number line).map (Content.moved fun o => ⟨other, o.text⟩) := by
  have fields : Text.fields (stripComment (lineContent line)) = Text.fields (stripComment line) := by
    rw [stripComment_of_unmarked (unmarked_lineContent line)]
    exact Text.fields_trim _
  have text : Text.trim (stripComment (lineContent line)) = Text.trim (stripComment line) :=
    lineContent_lineContent line
  unfold Content.ofLine?
  rw [fields, text]
  cases (Text.fields (stripComment line)).map String.ofList <;> rfl

theorem Source.Content.ofLine?_origin (number : Nat) (line : List Char) :
    (Content.ofLine? number line).map Content.origin =
      if lineContent line = [] then none else some ⟨number, String.ofList (lineContent line)⟩ := by
  unfold Content.ofLine? lineContent
  cases fields : Text.fields (stripComment line) with
  | nil => rw [if_pos ((Text.fields_eq_nil_iff _).mp fields)]; rfl
  | cons mnemonic args =>
    have filled : Text.trim (stripComment line) ≠ [] := fun none => by
      rw [(Text.fields_eq_nil_iff _).mpr none] at fields
      cases fields
    rw [if_neg filled]
    rfl

theorem Source.Content.token_eq_ok {c : Content} {t : Token} (read : c.token = .ok t) :
    t.mnemonic = c.mnemonic ∧ t.args = c.args ∧ t.origin = c.origin := by
  unfold Content.token at read
  split at read
  · cases read
    exact ⟨rfl, rfl, rfl⟩
  · cases read

/-- There is one token for each line with content, in the order of the lines. -/
theorem Source.Token.scan_origins {text : List Char} {tokens : List Token}
    (scanned : Token.scan text = .ok tokens) : tokens.map Token.origin = contentLines text := by
  unfold Token.scan at scanned
  rw [Token.ofLines_eq, mapM_eq_ok] at scanned
  have contents : (Content.ofLines 1 (Text.lines text)).map Content.origin = contentLines text := by
    unfold Content.ofLines contentLines
    rw [List.map_filterMap]
    exact congrArg (List.filterMap · _) (funext fun (line, number) => Content.ofLine?_origin number line)
  rw [← contents]
  generalize Content.ofLines 1 (Text.lines text) = cs at scanned
  induction scanned with
  | nil => rfl
  | cons read _ ih => rw [List.map_cons, List.map_cons, (Content.token_eq_ok read).2.2, ih]

/-- A line of a text is read as a token of the text. -/
theorem Source.Token.scan_mem {text : List Char} {tokens : List Token}
    (scanned : Token.scan text = .ok tokens) {t : Token} (member : t ∈ tokens) :
    ∃ number line c, line ∈ Text.lines text ∧ Content.ofLine? number line = some c ∧
      c.token = .ok t := by
  obtain ⟨i, line, placed, read⟩ := Token.ofLines_mem _ 1 tokens scanned t member
  rw [Token.ofLine?_eq] at read
  split at read
  · cases read
  · rename_i c content
    obtain ⟨_, here, same⟩ := map_eq_ok.mp read
    cases same
    exact ⟨1 + i, line, c, List.mem_of_getElem? placed, content, here⟩

/-- The content of a line with a token, as a text of its own, is read as this token. -/
theorem Source.Token.scan_lineContent {text line : List Char} (placed : line ∈ Text.lines text)
    {number : Nat} {c : Content} (content : Content.ofLine? number line = some c) {t : Token}
    (read : c.token = .ok t) :
    Token.scan (lineContent line) = .ok [t.moved fun o => ⟨1, o.text⟩] := by
  have filled : lineContent line ≠ [] := fun none => by
    have origin := Content.ofLine?_origin number line
    rw [content, if_pos none] at origin
    cases origin
  have unbroken : '\n' ∉ lineContent line := fun feed => by
    obtain ⟨comment, parts, _⟩ := uncommented_stripComment line
    apply Text.lines_unbroken text line placed
    rw [parts]
    exact List.mem_append_left comment ((Text.trim_inside _).subset feed)
  unfold Token.scan
  rw [Text.lines_of_unbroken filled unbroken, Token.ofLines_eq, Content.ofLines_cons,
    Content.ofLine?_lineContent number 1, content]
  change List.mapM Content.token ([c].map (Content.moved fun o => ⟨1, o.text⟩)) = _
  rw [movedResult_mapM _ _ (Content.token_moved _), List.mapM_cons, read]
  rfl

end Lines

/-- Of two texts with a line feed between them, the first is read as it is alone, its fault included,
and the second as it is alone but that its lines, and the line of its fault, have the number of the line
feeds above them more. Of one text, each line that has content has one token, with this content as its
text and nothing else: no comment is in it, its fields are the mnemonic and the arguments, and read alone
it is this token, on the first line. -/
theorem scanning_is_line_local (above below : List Char) :
    (∀ f, Token.scan above = .error f → Token.scan (above ++ '\n' :: below) = .error f) ∧
    (∀ first, Token.scan above = .ok first →
      (∀ f, Token.scan below = .error f → Token.scan (above ++ '\n' :: below) =
        .error (f.moved (Origin.lowered (above.count '\n' + 1)))) ∧
      ∀ second, Token.scan below = .ok second → Token.scan (above ++ '\n' :: below) =
        .ok (first ++ second.map (Token.moved (Origin.lowered (above.count '\n' + 1))))) ∧
    (∀ line, Uncommented (stripComment line) line) ∧
    ∀ text tokens, Token.scan text = .ok tokens →
      tokens.map Token.origin = contentLines text ∧
      ∀ t ∈ tokens, Unmarked t.origin.text.toList ∧
        (Text.fields t.origin.text.toList).map String.ofList = t.mnemonic :: t.args ∧
        Token.scan t.origin.text.toList = .ok [{ t with origin := ⟨1, t.origin.text⟩ }] := by
  refine ⟨?_, ?_, uncommented_stripComment, ?_⟩
  · intro f failed
    rw [Token.scan_below, failed]
    rfl
  · intro first scanned
    constructor
    · intro f failed
      rw [Token.scan_below, scanned, failed]
      rfl
    · intro second later
      rw [Token.scan_below, scanned, later]
      rfl
  · intro text tokens scanned
    refine ⟨Token.scan_origins scanned, fun t member => ?_⟩
    obtain ⟨number, line, c, placed, content, read⟩ := Token.scan_mem scanned member
    obtain ⟨mnemonic, args, origin⟩ := Content.token_eq_ok read
    obtain ⟨spelled, fields⟩ := Content.ofLine?_eq_some content
    have characters : t.origin.text.toList = lineContent line := by
      rw [origin, spelled]
      exact String.toList_ofList
    rw [characters]
    refine ⟨unmarked_lineContent line, ?_, Token.scan_lineContent placed content read⟩
    rw [mnemonic, args, ← fields]
    exact congrArg (List.map String.ofList) (Text.fields_trim _)

/-- A line with two comments, an empty one, and one with nothing but comments that only a carriage
return ends. -/
def commentedLines : List Char := "NOP // a ; b\r\n\n ; c // d\r".toList

/-- A comment between two slashes, and a line that nothing ends. -/
def labelLines : List Char := "\tLABEL  x /;/ y\r\nloop".toList

/-- One slash is no comment marker, so the second line means nothing. -/
def slashedLines : List Char := "RET\nloop/".toList

/-- Below the three lines the labels are on the fourth and the fifth one, and so is the fault. -/
theorem commentedLines_read_apart :
    Token.scan (commentedLines ++ '\n' :: labelLines) = .ok
        [⟨.instruction, "NOP", [], ⟨1, "NOP"⟩⟩, ⟨.keyword .label, "LABEL", ["x", "/"], ⟨4, "LABEL  x /"⟩⟩,
          ⟨.label, "loop", [], ⟨5, "loop"⟩⟩] ∧
      Token.scan (commentedLines ++ '\n' :: slashedLines) = .error ⟨⟨5, "loop/"⟩, .unknownToken⟩ ∧
      Token.scan (slashedLines ++ '\n' :: commentedLines) = .error ⟨⟨2, "loop/"⟩, .unknownToken⟩ ∧
      contentLines labelLines = [⟨1, "LABEL  x /"⟩, ⟨2, "loop"⟩] ∧
      Token.scan "LABEL  x /".toList = .ok [⟨.keyword .label, "LABEL", ["x", "/"], ⟨1, "LABEL  x /"⟩⟩] := by
  have facts : Token.scan commentedLines = .ok [⟨.instruction, "NOP", [], ⟨1, "NOP"⟩⟩] ∧
      Token.scan labelLines = .ok [⟨.keyword .label, "LABEL", ["x", "/"], ⟨1, "LABEL  x /"⟩⟩,
        ⟨.label, "loop", [], ⟨2, "loop"⟩⟩] ∧
      Token.scan slashedLines = .error ⟨⟨2, "loop/"⟩, .unknownToken⟩ ∧
      commentedLines.count '\n' = 2 := by
    decide
  obtain ⟨upper, lower, faulty, feeds⟩ := facts
  obtain ⟨_, apart, _, read⟩ := scanning_is_line_local commentedLines labelLines
  obtain ⟨_, joined⟩ := apart _ upper
  obtain ⟨_, slashed, _⟩ := scanning_is_line_local commentedLines slashedLines
  obtain ⟨failing, _⟩ := slashed _ upper
  obtain ⟨failed, _⟩ := scanning_is_line_local slashedLines commentedLines
  obtain ⟨origins, tokens⟩ := read labelLines _ lower
  have label := (tokens _ List.mem_cons_self).2.2
  have whole := joined _ lower
  have later := failing _ faulty
  rw [feeds] at whole later
  exact ⟨whole, later, failed _ faulty, origins.symm, label⟩

end Accumulator
