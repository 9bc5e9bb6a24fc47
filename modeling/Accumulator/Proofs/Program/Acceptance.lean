import Accumulator.Proofs.Program.Names
import Accumulator.Proofs.Text.Line

set_option autoImplicit false

/-!
Which programs have code: those whose tokens all have the arguments that their operations ask for.
No token depends on the code of another one, so the passes of the generator, which report faults in
different orders, do not show in what is accepted.
-/

namespace Accumulator

open Source

namespace Layout

variable {l : Layout}

theorem Named.encodes_of_code (named : l.Named) {words : List Word} (coded : l.code = .ok words)
    (p : Placement) (member : p ∈ l.placements) (t : Token) (token : t ∈ p.scope.tokens) :
    ∃ w, l.Encodes p t.mnemonic t.args w := by
  obtain ⟨main, functions, first, rest, linked⟩ := Layout.code_eq_ok coded
  have encoded : ∃ e, p.encode t = .ok e ∧ e ∈ main ++ (0, .value 0) :: functions.flatten := by
    rcases List.mem_cons.mp member with rfl | function
    · obtain ⟨e, inside, encodes⟩ := forall₂_exists_of_mem (mapM_eq_ok.mp first) t token
      exact ⟨e, encodes, by simp [inside]⟩
    · obtain ⟨es, listed, each⟩ := forall₂_exists_of_mem rest p function
      obtain ⟨e, inside, encodes⟩ := forall₂_exists_of_mem (mapM_eq_ok.mp each) t token
      have flattened : e ∈ functions.flatten := List.mem_flatten.mpr ⟨es, listed, inside⟩
      exact ⟨e, encodes, by simp [flattened]⟩
  obtain ⟨e, encodes, inside⟩ := encoded
  obtain ⟨w, _, links⟩ := forall₂_exists_of_mem linked e inside
  exact ⟨w, (named.encode_iff p member t w).mp ⟨e, encodes, links⟩⟩

/-- The tokens of a scope that all have a word are encoded, each to what can be linked. -/
theorem Named.scope_encoded (named : l.Named) (p : Placement) (member : p ∈ l.placements)
    (each : ∀ t ∈ p.scope.tokens, ∃ w, l.Encodes p t.mnemonic t.args w) :
    ∃ es, p.scope.tokens.mapM p.encode = .ok es ∧ ∀ e ∈ es, ∃ w, l.link e = .ok w := by
  apply mapM_ok_of_each fun e => ∃ w, l.link e = .ok w
  intro t token
  obtain ⟨w, encodes⟩ := each t token
  obtain ⟨e, encoded, linked⟩ := (named.encode_iff p member t w).mpr encodes
  exact ⟨e, encoded, w, linked⟩

theorem Named.code_of_encodes (named : l.Named)
    (each : ∀ p ∈ l.placements, ∀ t ∈ p.scope.tokens, ∃ w, l.Encodes p t.mnemonic t.args w) :
    ∃ words, l.code = .ok words := by
  have scope : ∀ p ∈ l.placements, ∃ es, p.scope.tokens.mapM p.encode = .ok es ∧
      ∀ e ∈ es, ∃ w, l.link e = .ok w := by
    intro p member
    exact named.scope_encoded p member (each p member)
  obtain ⟨main, first, mainLinked⟩ := scope l.main List.mem_cons_self
  obtain ⟨functions, rest, linked⟩ :=
    mapM_ok_of_each (fun es => ∀ e ∈ es, ∃ w, l.link e = .ok w) l.functions fun p member =>
      scope p (List.mem_cons_of_mem _ member)
  have all : ∀ e ∈ main ++ (0, .value 0) :: functions.flatten,
      ∃ w, l.link e = .ok w ∧ True := by
    intro e member
    rcases List.mem_append.mp member with inMain | behind
    · obtain ⟨w, links⟩ := mainLinked e inMain
      exact ⟨w, links, trivial⟩
    · rcases List.mem_cons.mp behind with rfl | flattened
      · exact ⟨_, rfl, trivial⟩
      · obtain ⟨es, listed, inside⟩ := List.mem_flatten.mp flattened
        obtain ⟨w, links⟩ := linked es listed e inside
        exact ⟨w, links, trivial⟩
  obtain ⟨words, coded, _⟩ := mapM_ok_of_each (fun _ => True) _ all
  refine ⟨words, ?_⟩
  unfold Layout.code
  rw [first]
  change (l.functions.mapM (fun p => p.scope.tokens.mapM p.encode) >>= _) = _
  rw [rest]
  exact coded

theorem Named.token_word (named : l.Named) {program : Program} {words : List Word}
    (assembles : l.Assembles program words) (p : Placement) (member : p ∈ l.placements) (i : Nat)
    (t : Token) (found : p.scope.tokens[i]? = some t) :
    ∃ w, words[p.base + i - 1]? = some w ∧ l.Encodes p t.mnemonic t.args w := by
  obtain ⟨e, w, encoded, linked, placed⟩ := assembles.word_at p member i t found
  exact ⟨w, placed, (named.encode_iff p member t w).mp ⟨e, encoded, linked⟩⟩

end Layout

/-- A program that is laid out has code exactly if all tokens of its scopes are accepted. Mnemonics
outside of the instruction set are not, but no source text leads to them. If there is code, it has
one word for each address, and the word of a token is the one that encodes it. -/
theorem code_encodes_exactly_accepted (tokens : List Token) (program : Program) (l : Layout)
    (parsed : Program.ofTokens tokens = .ok program) (placed : Layout.ofProgram program = .ok l) :
    ((∃ words, l.code = .ok words) ↔
      ∀ p ∈ l.placements, ∀ t ∈ p.scope.tokens,
        ∃ i, Instruction.find? t.mnemonic = some i ∧ l.Accepts p t.args i.operation) ∧
    (∀ text, Program.ofSource text = .ok program →
      ∀ p ∈ l.placements, ∀ t ∈ p.scope.tokens, Instruction.isMnemonic t.mnemonic = true) ∧
    ∀ words, l.code = .ok words →
      words.length = l.size ∧
      ∀ p ∈ l.placements, ∀ i t, p.scope.tokens[i]? = some t →
        ∃ w, words[p.base + i - 1]? = some w ∧ l.Encodes p t.mnemonic t.args w := by
  have named := Layout.named_of_ofProgram parsed placed
  have places := Layout.places_of_ofProgram placed
  refine ⟨?_, ?_, ?_⟩
  · constructor
    · rintro ⟨words, coded⟩ p member t token
      have encodes := named.encodes_of_code coded p member t token
      exact (l.encodes_iff_accepts p t.mnemonic t.args).mp encodes
    · intro accepted
      apply named.code_of_encodes
      intro p member t token
      exact (l.encodes_iff_accepts p t.mnemonic t.args).mpr (accepted p member t token)
  · intro text source p member
    exact Program.mnemonics_of_source source p.scope (places.scope_mem p member)
  · intro words coded
    have assembles : l.Assembles program words :=
      ⟨places, Program.formed_of_tokens tokens program parsed, coded⟩
    exact ⟨assembles.length, fun p member i t found => named.token_word assembles p member i t found⟩

/-- A call with an argument, a jump over the end of the program, and a function that declares a
variable behind its parameter. -/
def callAndJump : List Char :=
  ("VAR x\nCALL double x\nGOTO done\nMOVWF 0x10\ndone\n" ++
    "FN double n\nVAR twice\nADD,W n\nMOVWF twice\nRETFW twice\nEND\n").toList

/-- Its twelve words are there since all tokens are accepted: among them the call, which has one
argument for the one parameter, and the jump to the address behind the main scope. -/
theorem callAndJump_accepted :
    ∃ tokens, (Token.scan callAndJump >>= Source.expand) = .ok tokens ∧
      ∃ program, Program.ofTokens tokens = .ok program ∧
        ∃ l, Layout.ofProgram program = .ok l ∧
          (∀ p ∈ l.placements, ∀ t ∈ p.scope.tokens,
            ∃ i, Instruction.find? t.mnemonic = some i ∧ l.Accepts p t.args i.operation) ∧
          ∃ words, l.code = .ok words ∧ words.length = 12 ∧
            words[3]? = some ⟨0x08, 8⟩ ∧ words[4]? = some ⟨0x0C, 7⟩ := by
  have characters : callAndJump = _ :=
    Text.toList_append_of String.toList_ofList String.toList_ofList
  have facts : ∃ tokens, (Token.scan callAndJump >>= Source.expand) = .ok tokens ∧
      ∃ program, Program.ofTokens tokens = .ok program ∧
        ∃ l, Layout.ofProgram program = .ok l ∧ l.size = 12 ∧
          ∃ words, l.code = .ok words ∧
            words[3]? = some ⟨0x08, 8⟩ ∧ words[4]? = some ⟨0x0C, 7⟩ := by
    rw [characters]
    decide +kernel
  obtain ⟨tokens, read, program, parsed, l, placed, size, words, coded, call, jump⟩ := facts
  obtain ⟨accepted, _, encoded⟩ := code_encodes_exactly_accepted tokens program l parsed placed
  refine ⟨tokens, read, program, parsed, l, placed, accepted.mp ⟨words, coded⟩, words, coded, ?_,
    call, jump⟩
  rw [(encoded words coded).1, size]

end Accumulator
