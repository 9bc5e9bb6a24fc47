import Accumulator.CommandLine.Response
import Accumulator.Proofs.Checked
import Accumulator.Proofs.Text.Line
import Accumulator.Proofs.Text.Numeral
import Mathlib.Data.List.Forall2

set_option autoImplicit false

/-!
Binary listings hold what was written to them. A text is a listing exactly if each of its lines that
are not blank is 32 binary digits between blanks, and the first line that is neither is blamed
otherwise.
-/

namespace Accumulator

namespace Word

/-- The form of a word in a listing: 32 binary digits. -/
def IsDigits (digits : List Char) : Prop :=
  digits.length = 32 ∧ ∀ c ∈ digits, c = '0' ∨ c = '1'

/-- A word is written as 32 binary digits: the first eight are the opcode, the others the literal. -/
structure WrittenAs (w : Word) (digits : List Char) : Prop where
  form : IsDigits digits
  opcode : w.opcode.toNat = Nat.ofDigitChars 2 (digits.take 8) 0
  literal : w.literal.toNat = Nat.ofDigitChars 2 (digits.drop 8) 0

theorem WrittenAs.unique {v w : Word} {digits : List Char} (first : v.WrittenAs digits)
    (second : w.WrittenAs digits) : v = w := by
  have opcode : v.opcode = w.opcode :=
    BitVec.eq_of_toNat_eq (first.opcode.trans second.opcode.symm)
  have literal : v.literal = w.literal :=
    BitVec.eq_of_toNat_eq (first.literal.trans second.literal.symm)
  cases v
  cases w
  cases opcode
  cases literal
  rfl

theorem digits_eq (w : Word) : w.digits = Text.bits w.opcode ++ Text.bits w.literal :=
  Text.bits_append w.opcode w.literal

theorem toBits_ofBits (bits : BitVec 32) : (ofBits bits).toBits = bits := by
  unfold ofBits toBits
  rw [BitVec.extractLsb'_append_extractLsb'_eq_extractLsb' (by rfl)]
  exact BitVec.extractLsb'_eq_self

theorem ofBits_toBits (w : Word) : ofBits w.toBits = w := by
  unfold ofBits toBits
  rw [BitVec.extractLsb'_append_eq_left, BitVec.extractLsb'_append_eq_right]

theorem writtenAs_digits (w : Word) : w.WrittenAs w.digits := by
  have opcode := Text.length_bits w.opcode
  refine ⟨⟨Text.length_bits w.toBits, Text.bits_binary w.toBits⟩, ?_, ?_⟩
  · rw [digits_eq, List.take_left' opcode, Text.ofDigitChars_bits]
  · rw [digits_eq, List.drop_left' opcode, Text.ofDigitChars_bits]

theorem exists_digits (digits : List Char) (form : IsDigits digits) :
    ∃ w : Word, digits = w.digits := by
  obtain ⟨bits, rfl⟩ := Text.exists_bits digits form.1 form.2
  refine ⟨ofBits bits, ?_⟩
  unfold Word.digits
  rw [toBits_ofBits]

theorem writtenAs_iff (w : Word) (digits : List Char) : w.WrittenAs digits ↔ digits = w.digits := by
  constructor
  · intro written
    obtain ⟨v, rfl⟩ := exists_digits digits written.form
    rw [written.unique v.writtenAs_digits]
  · rintro rfl
    exact w.writtenAs_digits

theorem ofDigits?_digits (w : Word) : ofDigits? w.digits = some w := by
  obtain ⟨length, binary⟩ := w.writtenAs_digits.form
  have filled : w.digits ≠ [] := List.ne_nil_of_length_pos (by omega)
  have digital : ∀ c ∈ w.digits, c.isDigit = true := by
    intro c member
    rcases binary c member with rfl | rfl <;> rfl
  have all : w.digits.all (Text.isDigitOf 2) = true :=
    List.all_eq_true.mpr fun c member => (Text.isDigitOf_two_iff c).mpr (binary c member)
  unfold ofDigits? Text.readDigits Text.ofDigits
  rw [if_pos length, if_pos ⟨filled, all⟩, Text.foldl_digitValue 2 _ digital, Option.map_some]
  unfold digits
  rw [Text.ofDigitChars_bits, BitVec.ofNat_toNat, BitVec.setWidth_eq, ofBits_toBits]

theorem ofDigits?_eq_some_iff (digits : List Char) (w : Word) :
    ofDigits? digits = some w ↔ w.WrittenAs digits := by
  rw [writtenAs_iff]
  constructor
  · intro read
    have form : IsDigits digits := by
      unfold ofDigits? Text.readDigits at read
      split at read
      · rename_i length
        split at read
        · rename_i digital
          have binary := List.all_eq_true.mp digital.2
          exact ⟨length, fun c member => (Text.isDigitOf_two_iff c).mp (binary c member)⟩
        · cases read
      · cases read
    obtain ⟨v, rfl⟩ := exists_digits digits form
    rw [ofDigits?_digits] at read
    cases read
    rfl
  · rintro rfl
    exact w.ofDigits?_digits

end Word

namespace Listing

/-- The lines of a text that are not blank. -/
def filled (text : List Char) : List (List Char) :=
  (Text.lines text).filter fun line => !line.all Text.isBlank

/-- A line that is neither blank nor, between its blanks, a word. -/
def Unreadable (line : List Char) : Prop :=
  line.all Text.isBlank = false ∧ ¬ Word.IsDigits (Text.trim line)

theorem line_cases (line : List Char) :
    line.all Text.isBlank = true ∨ (∃ w : Word, w.WrittenAs (Text.trim line)) ∨
      Unreadable line := by
  by_cases blank : line.all Text.isBlank = true
  · exact .inl blank
  · by_cases form : Word.IsDigits (Text.trim line)
    · obtain ⟨w, digits⟩ := Word.exists_digits _ form
      exact .inr (.inl ⟨w, (w.writtenAs_iff _).mpr digits⟩)
    · exact .inr (.inr ⟨Bool.eq_false_iff.mpr blank, form⟩)

theorem not_blank_of_form (line : List Char) (form : Word.IsDigits (Text.trim line)) :
    line.all Text.isBlank = false := by
  rw [Bool.eq_false_iff]
  intro blank
  have length := form.1
  rw [(Text.trim_eq_nil_iff line).mpr blank] at length
  cases length

theorem isEmpty_trim (line : List Char) :
    (Text.trim line).isEmpty = line.all Text.isBlank := by
  apply Bool.eq_iff_iff.mpr
  rw [List.isEmpty_iff]
  exact Text.trim_eq_nil_iff line

section

variable (first : Nat) (line : List Char) (rest : List (List Char))

theorem readLines_blank (blank : line.all Text.isBlank = true) :
    readLines first (line :: rest) = readLines (first + 1) rest := by
  rw [readLines, if_pos (isEmpty_trim line ▸ blank)]

theorem readLines_word (w : Word) (written : w.WrittenAs (Text.trim line)) :
    readLines first (line :: rest) = (readLines (first + 1) rest).map (w :: ·) := by
  have filled := not_blank_of_form line written.form
  have read : readWord first line = .ok w := by
    unfold readWord
    rw [(Word.ofDigits?_eq_some_iff _ w).mpr written]
  rw [readLines, if_neg (by simp [isEmpty_trim, filled]), read]
  rfl

theorem readLines_unreadable (unreadable : Unreadable line) :
    readLines first (line :: rest) = .error ⟨first, String.ofList (Text.trim line)⟩ := by
  have read : readWord first line = .error ⟨first, String.ofList (Text.trim line)⟩ := by
    unfold readWord
    split
    · rename_i w found
      exact absurd ((Word.ofDigits?_eq_some_iff _ w).mp found).form unreadable.2
    · rfl
  rw [readLines, if_neg (by simp [isEmpty_trim, unreadable.1]), read]
  rfl

end

theorem readLines_eq_ok_iff (first : Nat) (lines : List (List Char)) (words : List Word) :
    readLines first lines = .ok words ↔
      List.Forall₂ (fun line w => w.WrittenAs (Text.trim line))
        (lines.filter fun line => !line.all Text.isBlank) words := by
  induction lines generalizing first words with
  | nil =>
    rw [readLines, List.filter_nil, List.forall₂_nil_left_iff, Except.ok.injEq]
    exact eq_comm
  | cons line rest ih =>
    rcases line_cases line with blank | ⟨w, written⟩ | unreadable
    · rw [readLines_blank first line rest blank, ih, List.filter_cons_of_neg (by simp [blank])]
    · have kept := not_blank_of_form line written.form
      rw [readLines_word first line rest w written, List.filter_cons_of_pos (by simp [kept]),
        List.forall₂_cons_left_iff]
      constructor
      · intro read
        obtain ⟨words, later, rfl⟩ := map_eq_ok.mp read
        exact ⟨w, words, written, (ih _ words).mp later, rfl⟩
      · rintro ⟨v, words, also, later, rfl⟩
        rw [(ih (first + 1) words).mpr later, written.unique also]
        rfl
    · rw [readLines_unreadable first line rest unreadable,
        List.filter_cons_of_pos (by simp [unreadable.1]), List.forall₂_cons_left_iff]
      constructor
      · exact nofun
      · rintro ⟨w, _, written, _, _⟩
        exact absurd written.form unreadable.2

theorem readLines_readable (first : Nat) (line : List Char) (rest : List (List Char))
    (readable : ¬ Unreadable line) (f : Fault) :
    readLines first (line :: rest) = .error f ↔ readLines (first + 1) rest = .error f := by
  rcases line_cases line with blank | ⟨w, written⟩ | unreadable
  · rw [readLines_blank first line rest blank]
  · rw [readLines_word first line rest w written, map_eq_error]
  · exact absurd unreadable readable

/-- The fault of lines is that of the first of them that cannot be read. -/
theorem readLines_eq_error_iff (first : Nat) (lines : List (List Char)) (f : Fault) :
    readLines first lines = .error f ↔
      ∃ before line behind, lines = before ++ line :: behind ∧
        (∀ other ∈ before, ¬ Unreadable other) ∧ Unreadable line ∧
        f = ⟨first + before.length, String.ofList (Text.trim line)⟩ := by
  induction lines generalizing first with
  | nil =>
    constructor
    · exact nofun
    · rintro ⟨before, line, behind, parts, _⟩
      cases before <;> cases parts
  | cons head rest ih =>
    by_cases unreadable : Unreadable head
    · rw [readLines_unreadable first head rest unreadable]
      constructor
      · intro failed
        cases failed
        exact ⟨[], head, rest, rfl, nofun, unreadable, rfl⟩
      · rintro ⟨before, line, behind, parts, readable, _, rfl⟩
        cases before with
        | nil =>
          cases parts
          rfl
        | cons other before =>
          cases parts
          exact absurd unreadable (readable _ List.mem_cons_self)
    · rw [readLines_readable first head rest unreadable, ih]
      constructor
      · rintro ⟨before, line, behind, rfl, readable, here, rfl⟩
        refine ⟨head :: before, line, behind, rfl, ?_, here, ?_⟩
        · exact List.forall_mem_cons.mpr ⟨unreadable, readable⟩
        · rw [List.length_cons, Nat.add_right_comm, Nat.add_assoc]
      · rintro ⟨before, line, behind, parts, readable, here, rfl⟩
        cases before with
        | nil =>
          cases parts
          exact absurd here unreadable
        | cons other before =>
          cases parts
          refine ⟨before, line, behind, rfl, ?_, here, ?_⟩
          · exact fun other member => readable other (List.mem_cons_of_mem _ member)
          · rw [List.length_cons, Nat.add_right_comm, Nat.add_assoc]

theorem read_eq_ok_iff (text : List Char) (words : List Word) :
    read text = .ok words ↔
      List.Forall₂ (fun line w => w.WrittenAs (Text.trim line)) (filled text) words :=
  readLines_eq_ok_iff 1 (Text.lines text) words

/-- The rows of a listing are plain text, and trimming leaves them as they are. -/
theorem digits_plain (w : Word) :
    w.digits ≠ [] ∧ (∀ c ∈ w.digits, c ≠ '\n' ∧ c ≠ '\r') ∧ Text.trim w.digits = w.digits := by
  obtain ⟨length, binary⟩ := w.writtenAs_digits.form
  refine ⟨List.ne_nil_of_length_pos (by omega), ?_, ?_⟩
  · intro c member
    rcases binary c member with rfl | rfl <;> decide
  · apply Text.trim_of_unblank
    intro c member
    rcases binary c member with rfl | rfl <;> decide

theorem readLines_digits (first : Nat) (words : List Word) :
    readLines first (words.map Word.digits) = .ok words := by
  induction words generalizing first with
  | nil => rfl
  | cons w words ih =>
    have written : w.WrittenAs (Text.trim w.digits) := by
      rw [(digits_plain w).2.2]
      exact w.writtenAs_digits
    rw [List.map_cons, readLines_word first _ _ w written, ih]
    rfl

theorem read_write (words : List Word) :
    read (write words) = .ok words ∧ read (write words ++ ['\n']) = .ok words := by
  obtain ⟨bare, ended⟩ := Text.lines_intercalate (words.map Word.digits)
    (List.forall_mem_map.mpr fun w _ => (digits_plain w).1)
    (List.forall_mem_map.mpr fun w _ => (digits_plain w).2.1)
  unfold read write
  rw [bare]
  refine ⟨readLines_digits 1 words, ?_⟩
  cases words with
  | nil => rfl
  | cons w words =>
    rw [ended (List.cons_ne_nil _ _)]
    exact readLines_digits 1 (w :: words)

theorem trimmed_eq_digits {lines : List (List Char)} {words : List Word}
    (each : List.Forall₂ (fun line w => w.WrittenAs (Text.trim line)) lines words) :
    lines.map Text.trim = words.map Word.digits := by
  induction each with
  | nil => rfl
  | cons written _ ih =>
    rw [List.map_cons, List.map_cons, (Word.writtenAs_iff _ _).mp written, ih]

/-- A listing that is read is written again without what is blank in it. -/
theorem write_of_read (text : List Char) (words : List Word) (success : read text = .ok words) :
    write words = ['\n'].intercalate ((filled text).map Text.trim) := by
  unfold write
  rw [trimmed_eq_digits ((read_eq_ok_iff text words).mp success)]

end Listing

namespace CommandLine.Response

/-- What a run answers does not depend on the events before it, which it only adds to. -/
theorem runWords_events (events : List Event) (options : RunOptions) (words : List Word) :
    runWords events options words =
      { runWords [] options words with
        events := events ++ (runWords [] options words).events } := by
  unfold runWords
  dsimp only
  generalize runEvents _ _ = result
  obtain ⟨steps, after, fault⟩ := result
  cases fault with
  | none => simp only [List.nil_append]
  | some f => simp [failure]

theorem runWords_binary (events : List Event) (options : RunOptions) (binary : Bool)
    (words : List Word) :
    runWords events { options with binary } words = runWords events options words :=
  rfl

theorem assemble_listing (source : String) (text : List Char) (a : Assembly)
    (compiled : Assembly.ofSource text = .ok a) :
    (assemble source none text).stdout.toList = Listing.write a.words ++ ['\n'] := by
  unfold assemble
  rw [compiled]
  simp

theorem assemble_file (source name : String) (text : List Char) (a : Assembly)
    (compiled : Assembly.ofSource text = .ok a) :
    (assemble source (some name) text).file = some (name, (assemble source none text).stdout) := by
  unfold assemble
  rw [compiled]

/-- To run a listing is to run the source that it was assembled from, but for the events of
assembling this source. -/
theorem run_listing (source : String) (text : List Char) (a : Assembly) (options : RunOptions)
    (compiled : Assembly.ofSource text = .ok a) :
    run { options with binary := false } text =
      let loaded := run { options with binary := true } (assemble source none text).stdout.toList
      { loaded with events := assemblyEvents text ++ loaded.events } := by
  have compiles : run { options with binary := false } text =
      runWords (assemblyEvents text) options a.words := by
    rw [← runWords_binary _ options false]
    unfold run
    rw [if_neg Bool.false_ne_true, compiled]
  have loads : run { options with binary := true } (Listing.write a.words ++ ['\n']) =
      runWords [] options a.words := by
    rw [← runWords_binary _ options true]
    unfold run
    rw [if_pos rfl, (Listing.read_write a.words).2]
  rw [assemble_listing source text a compiled, compiles, loads]
  exact runWords_events _ _ a.words

end CommandLine.Response

open CommandLine in
/-- What is written as a listing is read back, with or without a line feed at the end, so that to
run the listing of a source is to run the source, but for the events of assembling it. A text is
read exactly if each line that is not blank is a word between blanks, and then it is the listing of
these words but for what is blank in it. The fault of any other text tells the number, among all
lines, and the trimmed text of the first line that is neither blank nor a word. -/
theorem listings_decode_exactly :
    (∀ words, Listing.read (Listing.write words) = .ok words ∧
      Listing.read (Listing.write words ++ ['\n']) = .ok words) ∧
    (∀ source text a (options : RunOptions), Assembly.ofSource text = .ok a →
      let listing := (Response.assemble source none text).stdout
      Listing.read listing.toList = .ok a.words ∧
      (∀ name, (Response.assemble source (some name) text).file = some (name, listing)) ∧
      Response.run { options with binary := false } text =
        let loaded := Response.run { options with binary := true } listing.toList
        { loaded with events := assemblyEvents text ++ loaded.events }) ∧
    (∀ text words, Listing.read text = .ok words ↔
      List.Forall₂ (fun line w => w.WrittenAs (Text.trim line)) (Listing.filled text) words) ∧
    (∀ text f, Listing.read text = .error f ↔
      ∃ before line behind, Text.lines text = before ++ line :: behind ∧
        (∀ other ∈ before, ¬ Listing.Unreadable other) ∧ Listing.Unreadable line ∧
        f = ⟨before.length + 1, String.ofList (Text.trim line)⟩) ∧
    ∀ text words, Listing.read text = .ok words →
      Listing.write words = ['\n'].intercalate ((Listing.filled text).map Text.trim) := by
  refine ⟨Listing.read_write, ?_, Listing.read_eq_ok_iff, ?_, Listing.write_of_read⟩
  · intro source text a options compiled
    refine ⟨?_, fun name => Response.assemble_file source name text a compiled,
      Response.run_listing source text a options compiled⟩
    rw [Response.assemble_listing source text a compiled]
    exact (Listing.read_write a.words).2
  · intro text f
    simp only [Nat.add_comm _ 1]
    exact Listing.readLines_eq_error_iff 1 (Text.lines text) f

/-- A word between blanks that ends in a carriage return, a blank line, and a word without a line
end. -/
def paddedListing : List Char :=
  ("\t00000100000000000000000000000101 \r\n \u3000\r\n" ++
    "01000001000000000000000000000000").toList

def outputFive : List Char := "MOVLW 5\nWOUTW,1".toList

open CommandLine in
/-- Its two words are written without what is blank. They are those of the two lines that output a
five, but for the halt word, and the listing of these lines runs as they do. -/
theorem paddedListing_decoded :
    (∃ words, Listing.read paddedListing = .ok words ∧ words = [⟨0x04, 5⟩, ⟨0x41, 0⟩] ∧
      Listing.write words = ['\n'].intercalate ((Listing.filled paddedListing).map Text.trim)) ∧
    ∃ a, Assembly.ofSource outputFive = .ok a ∧
      a.words = [⟨0x04, 5⟩, ⟨0x41, 0⟩, Word.halt] ∧
      let listing := (Response.assemble "five" none outputFive).stdout
      Listing.read listing.toList = .ok a.words ∧
      (Response.run ⟨false, 9, ⟨0, 0⟩, false⟩ outputFive).stdout =
        (Response.run ⟨true, 9, ⟨0, 0⟩, false⟩ listing.toList).stdout := by
  have padded : Listing.read paddedListing = .ok [⟨0x04, 5⟩, ⟨0x41, 0⟩] := by
    have characters : paddedListing = _ :=
      Text.toList_append_of String.toList_ofList String.toList_ofList
    rw [characters]
    decide +kernel
  have assembled : ∃ a, Assembly.ofSource outputFive = .ok a ∧
      a.words = [⟨0x04, 5⟩, ⟨0x41, 0⟩, Word.halt] := by
    decide +kernel
  obtain ⟨_, runs, _, _, rewritten⟩ := listings_decode_exactly
  obtain ⟨a, compiled, words⟩ := assembled
  obtain ⟨reads, _, same⟩ := runs "five" _ a ⟨true, 9, ⟨0, 0⟩, false⟩ compiled
  have printed := congrArg Response.stdout same
  dsimp only at printed
  exact ⟨⟨_, padded, rfl, rewritten _ _ padded⟩, a, compiled, words, reads, printed⟩

end Accumulator
