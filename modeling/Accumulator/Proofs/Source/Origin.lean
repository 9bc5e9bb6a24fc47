import Accumulator.Proofs.Checked
import Accumulator.Source.Expansion

set_option autoImplicit false

/-!
Where tokens come from: each is read from one line of the source, which its origin tells by number and
text. Expansion leaves that as it is, and replaces nothing but arguments.
-/

namespace Accumulator

open Source

/-- A line of a text, told by its number, from one on, and without comment and outer blanks. -/
def Origin.StandsIn (origin : Origin) (text line : List Char) : Prop :=
  0 < origin.line ∧ (Text.lines text)[origin.line - 1]? = some line ∧
    origin.text = String.ofList (Text.trim (stripComment line))

/-- A token of a text, apart from its arguments: it is read from the line that its origin tells. -/
def Source.Token.ReadFrom (t : Token) (text : List Char) : Prop :=
  ∃ line raw, t.origin.StandsIn text line ∧ Token.ofLine? t.origin.line line = .ok (some raw) ∧
    t = { raw with args := t.args }

theorem Source.Token.ofLine?_origin {number : Nat} {line : List Char} {t : Token}
    (read : Token.ofLine? number line = .ok (some t)) :
    t.origin = ⟨number, String.ofList (Text.trim (stripComment line))⟩ := by
  unfold Token.ofLine? at read
  dsimp only at read
  split at read
  · cases read
  · split at read
    · cases read
      rfl
    · cases read

/-- Every token comes from one of the lines, under the number of that line. -/
theorem Source.Token.ofLines_mem (lines : List (List Char)) (first : Nat) (tokens : List Token)
    (read : Token.ofLines first lines = .ok tokens) (t : Token) (member : t ∈ tokens) :
    ∃ i line, lines[i]? = some line ∧ Token.ofLine? (first + i) line = .ok (some t) := by
  induction lines generalizing first tokens with
  | nil =>
    cases read
    cases member
  | cons line rest ih =>
    unfold Token.ofLines at read
    simp only [bind_eq_ok, pure_eq_ok] at read
    obtain ⟨token, here, others, later, rfl⟩ := read
    rcases List.mem_append.mp member with head | tail
    · exact ⟨0, line, rfl, Option.mem_toList.mp head ▸ here⟩
    · obtain ⟨i, found, placed, reads⟩ := ih (first + 1) others later tail
      refine ⟨i + 1, found, placed, ?_⟩
      rw [← reads, Nat.add_assoc, Nat.add_comm 1 i]

theorem Source.Constants.expandToken_shape {c : Constants} {t expanded : Token}
    (success : c.expandToken t = .ok expanded) : expanded = { t with args := expanded.args } := by
  unfold Constants.expandToken at success
  split at success
  · cases success
    rfl
  · cases success

/-- Every token after expansion is one from before it, apart from its arguments. -/
theorem Source.Constants.expand_mem (c : Constants) (tokens expanded : List Token)
    (success : c.expand tokens = .ok expanded) (t : Token) (member : t ∈ expanded) :
    ∃ raw ∈ tokens, t = { raw with args := t.args } := by
  induction tokens generalizing c expanded with
  | nil =>
    cases success
    cases member
  | cons first rest ih =>
    unfold Constants.expand at success
    split at success
    · obtain ⟨⟨name, value⟩, _, success⟩ := bind_eq_ok.mp success
      obtain ⟨raw, found, same⟩ := ih _ expanded success member
      exact ⟨raw, List.mem_cons_of_mem _ found, same⟩
    · simp only [bind_eq_ok, pure_eq_ok] at success
      obtain ⟨token, here, others, success, rfl⟩ := success
      rcases List.mem_cons.mp member with rfl | behind
      · exact ⟨first, List.mem_cons_self, Constants.expandToken_shape here⟩
      · obtain ⟨raw, found, same⟩ := ih c others success behind
        exact ⟨raw, List.mem_cons_of_mem _ found, same⟩

/-- Every token of an expanded source is read from the line that its origin tells. -/
theorem Source.Token.readFrom_of_expanded {text : List Char} {tokens expanded : List Token}
    (scanned : Token.scan text = .ok tokens) (expands : Source.expand tokens = .ok expanded)
    (t : Token) (member : t ∈ expanded) : t.ReadFrom text := by
  obtain ⟨raw, found, same⟩ := Constants.expand_mem .empty tokens expanded expands t member
  obtain ⟨i, line, placed, read⟩ := Token.ofLines_mem _ 1 tokens scanned raw found
  have here := Token.ofLine?_origin read
  have origin : t.origin = raw.origin := by rw [same]
  rw [here] at origin
  unfold Token.ReadFrom Origin.StandsIn
  rw [origin]
  refine ⟨line, raw, ⟨Nat.add_pos_left Nat.one_pos i, ?_, rfl⟩, read, same⟩
  rw [Nat.add_sub_cancel_left]
  exact placed

end Accumulator
