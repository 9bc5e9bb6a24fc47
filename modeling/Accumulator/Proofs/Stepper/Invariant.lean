import Accumulator.Proofs.Machine.Ceiling
import Accumulator.Proofs.Program.Code
import Accumulator.Proofs.Stepper.Context
import Mathlib.Data.List.Induction

set_option autoImplicit false

/-!
What holds in a session of the stepper whatever has been done in it. A run is over when it returns,
a program that is being stepped through is that of the text in the editor and has not halted, and
what is loaded is one program with its own table of sources, though the text may have been changed
since.
-/

namespace Accumulator.Stepper

open Machine (Processor)

/-- What can be done in a session. -/
inductive Action
  | load
  | step
  | run
  | edit (source : List Char)
  | setFormat (format : NumberFormat)
  | setPorts (ports : Machine.Ports)
  | scroll (state memory : Nat)
  | setPane (pane : Pane)
  | draw
deriving DecidableEq, Repr

/-- A program that is loaded together with all that is known of its source. -/
structure Loaded.Whole (program : Loaded) (known : Assembly → Prop) : Prop where
  known : known program.assembly
  code : program.processor.code = program.assembly.words.toArray

namespace Session

/-- The session after an action. Drawing only looks at it. -/
def perform (s : Session) : Action → Session
  | .load => s.load.1
  | .step => s.step
  | .run => s.run
  | .edit source => s.edit source
  | .setFormat format => s.setFormat format
  | .setPorts ports => s.setPorts ports
  | .scroll state memory => s.scroll state memory
  | .setPane pane => s.setPane pane
  | .draw => s

def performAll (s : Session) (actions : List Action) : Session := actions.foldl perform s

/-- The session after the program of its text is loaded. -/
def loaded (s : Session) (a : Assembly) : Session :=
  { s.log ("Assembled " ++ toString a.words.length ++ " words. Processor reset and loaded.") with
    program := some ⟨a, Processor.load a.words⟩
    memoryScroll := 0 }

theorem loaded_source (s : Session) (a : Assembly) : (s.loaded a).source = s.source := by
  simp only [source, loaded, log]

theorem load_of_ok {s : Session} {a : Assembly} (compiled : Assembly.ofSource s.source = .ok a) :
    s.load = (s.loaded a, true) := by
  unfold load
  rw [compiled]
  rfl

theorem load_of_error {s : Session} {f : Source.Fault}
    (refused : Assembly.ofSource s.source = .error f) :
    s.load = ({ s.log ("Compile error: " ++ f.message) with program := none }, false) := by
  unfold load
  rw [refused]

theorem loadIfEditing_editing {s : Session} {a : Assembly} (editing : s.mode = .editing)
    (compiled : Assembly.ofSource s.source = .ok a) :
    s.loadIfEditing = (s.loaded a, true) := by
  unfold loadIfEditing
  rw [if_pos editing, load_of_ok compiled]

/-- A step with a program to work on is a cycle of its processor. -/
theorem step_of_entered {s t : Session} {program : Loaded}
    (entered : s.loadIfEditing = (t, true)) (loaded : t.program = some program) :
    s.step = ({ t with mode := t.mode.stepped } : Session).settle
      { program with processor := (program.processor.step fun _ => t.ports).1 }
      (program.processor.step fun _ => t.ports).2 := by
  unfold step
  rw [entered]
  simp only [loaded]

theorem run_of_entered {s t : Session} {program : Loaded}
    (entered : s.loadIfEditing = (t, true)) (loaded : t.program = some program) :
    s.run = ({ t with mode := .running } : Session).settle
      { program with processor := (program.processor.run fun _ => t.ports).1 }
      (program.processor.run fun _ => t.ports).2 := by
  unfold run
  rw [entered]
  simp only [loaded]

theorem settle_editor (s : Session) (program : Loaded) (fault : Option Machine.Fault) :
    (s.settle program fault).editor = s.editor := by
  unfold settle
  cases fault with
  | some f => rfl
  | none =>
    dsimp only
    split <;> rfl

theorem settle_program (s : Session) (program : Loaded) (fault : Option Machine.Fault) :
    (s.settle program fault).program = some program := by
  unfold settle
  cases fault with
  | some f => rfl
  | none =>
    dsimp only
    split <;> rfl

/-- A fault and a halt both end the stepping. -/
theorem settle_mode (s : Session) (program : Loaded) (fault : Option Machine.Fault) :
    (s.settle program fault).mode =
      if fault.isSome ∨ program.processor.state.halted then .editing else s.mode := by
  unfold settle
  cases fault with
  | some f => simp
  | none =>
    dsimp only
    split <;> rename_i halted
    · simp [halted]
    · simp [halted]

/-- What holds in every session, where the assemblies of all texts that have been in the editor are
known. -/
structure Sound (s : Session) (known : Assembly → Prop) : Prop where
  ended : s.mode ≠ .running
  stepping : s.mode = .stepping → ∃ program, s.program = some program ∧
    program.processor.state.halted = false ∧ Assembly.ofSource s.source = .ok program.assembly
  whole : ∀ program, s.program = some program → program.Whole known

section

variable {s : Session} {known : Assembly → Prop}

theorem Sound.mono {more : Assembly → Prop} (sound : s.Sound known)
    (larger : ∀ a, known a → more a) : s.Sound more := by
  refine ⟨sound.ended, sound.stepping, ?_⟩
  intro program loaded
  have whole := sound.whole program loaded
  exact ⟨larger _ whole.known, whole.code⟩

theorem sound_of_loaded {a : Assembly} (sound : s.Sound known)
    (compiled : Assembly.ofSource s.source = .ok a) (new : known a) :
    (s.loaded a).Sound known := by
  refine ⟨sound.ended, ?_, ?_⟩
  · intro _
    refine ⟨⟨a, Processor.load a.words⟩, rfl, rfl, ?_⟩
    rw [loaded_source]
    exact compiled
  · intro program same
    obtain rfl : ⟨a, Processor.load a.words⟩ = program := Option.some.inj same
    exact ⟨new, rfl⟩

/-- A text that does not assemble is not being stepped through, and leaves nothing loaded. -/
theorem Sound.load (sound : s.Sound known)
    (current : ∀ a, Assembly.ofSource s.source = .ok a → known a) : s.load.1.Sound known := by
  cases compiled : Assembly.ofSource s.source with
  | ok a =>
    rw [load_of_ok compiled]
    exact sound_of_loaded sound compiled (current a compiled)
  | error f =>
    rw [load_of_error compiled]
    refine ⟨sound.ended, ?_, ?_⟩
    · intro stepping
      obtain ⟨program, _, _, assembled⟩ := sound.stepping stepping
      rw [compiled] at assembled
      cases assembled
    · intro program loaded
      cases loaded

/-- A step or a run either ends at a text that does not assemble, or has the program of the text in
the editor to work on. -/
theorem Sound.loadIfEditing (sound : s.Sound known)
    (current : ∀ a, Assembly.ofSource s.source = .ok a → known a) :
    (∃ t, s.loadIfEditing = (t, false) ∧ t.Sound known) ∨
      ∃ t program, s.loadIfEditing = (t, true) ∧ t.mode = s.mode ∧ t.program = some program ∧
        Assembly.ofSource t.source = .ok program.assembly ∧ program.Whole known := by
  by_cases editing : s.mode = .editing
  · cases compiled : Assembly.ofSource s.source with
    | ok a =>
      rw [loadIfEditing_editing editing compiled]
      refine .inr ⟨s.loaded a, ⟨a, Processor.load a.words⟩, rfl, rfl, rfl, ?_, ?_⟩
      · rw [loaded_source]
        exact compiled
      · exact ⟨current a compiled, rfl⟩
    | error f =>
      have left := sound.load current
      unfold Session.loadIfEditing
      rw [if_pos editing]
      rw [load_of_error compiled] at left ⊢
      exact .inl ⟨_, rfl, left⟩
  · unfold Session.loadIfEditing
    rw [if_neg editing]
    have stepping : s.mode = .stepping := by
      cases mode : s.mode with
      | editing => exact absurd mode editing
      | stepping => rfl
      | running => exact absurd mode sound.ended
    obtain ⟨program, loaded, _, compiled⟩ := sound.stepping stepping
    exact .inr ⟨s, program, rfl, rfl, loaded, compiled, sound.whole program loaded⟩

/-- A session that is stepping on, or has come to an end, is sound. -/
theorem sound_of_settled {program : Loaded} {fault : Option Machine.Fault}
    (compiled : Assembly.ofSource s.source = .ok program.assembly) (whole : program.Whole known)
    (steps : s.mode = .stepping ∨ fault.isSome ∨ program.processor.state.halted = true) :
    (s.settle program fault).Sound known := by
  have mode := settle_mode s program fault
  have loaded := settle_program s program fault
  have source : (s.settle program fault).source = s.source :=
    congrArg (fun editor => (Text.joinLines editor).toList) (settle_editor s program fault)
  by_cases ended : fault.isSome ∨ program.processor.state.halted = true
  · rw [if_pos ended] at mode
    refine ⟨by rw [mode]; nofun, by rw [mode]; nofun, ?_⟩
    intro other also
    rw [loaded] at also
    cases also
    exact whole
  · rw [if_neg ended, steps.resolve_right ended] at mode
    refine ⟨by rw [mode]; nofun, ?_, ?_⟩
    · intro _
      refine ⟨program, loaded, ?_, by rw [source]; exact compiled⟩
      simpa using fun halted => ended (.inr halted)
    · intro other also
      rw [loaded] at also
      cases also
      exact whole

theorem Sound.step (sound : s.Sound known)
    (current : ∀ a, Assembly.ofSource s.source = .ok a → known a) : s.step.Sound known := by
  rcases sound.loadIfEditing current with
    ⟨t, refused, left⟩ | ⟨t, program, entered, mode, loaded, compiled, whole⟩
  · unfold Session.step
    rw [refused]
    exact left
  · have stepping : t.mode.stepped = .stepping := by
      cases now : t.mode with
      | editing | stepping => rfl
      | running => exact absurd (mode.symm.trans now) sound.ended
    rw [step_of_entered entered loaded]
    exact sound_of_settled compiled ⟨whole.known, whole.code⟩ (.inl stepping)

theorem Sound.run (sound : s.Sound known)
    (current : ∀ a, Assembly.ofSource s.source = .ok a → known a) : s.run.Sound known := by
  rcases sound.loadIfEditing current with
    ⟨t, refused, left⟩ | ⟨t, program, entered, _, loaded, compiled, whole⟩
  · unfold Session.run
    rw [refused]
    exact left
  · have ended := program.processor.over_of_run fun _ => t.ports
    rw [run_of_entered entered loaded]
    exact sound_of_settled compiled ⟨whole.known, whole.code⟩ (.inr ended)

theorem Sound.edit (sound : s.Sound known) (source : List Char) :
    (s.edit source).Sound known :=
  ⟨nofun, nofun, sound.whole⟩

/-- An action keeps a session sound if the text that it finds in the editor is taken as known. -/
theorem Sound.perform (sound : s.Sound known)
    (current : ∀ a, Assembly.ofSource s.source = .ok a → known a) (action : Action) :
    (s.perform action).Sound known := by
  cases action with
  | load => exact sound.load current
  | step => exact sound.step current
  | run => exact sound.run current
  | edit source => exact sound.edit source
  | setFormat | setPorts | scroll | setPane | draw =>
    exact ⟨sound.ended, sound.stepping, sound.whole⟩

end

theorem start_sound (source : List Char) (known : Assembly → Prop) :
    (start source).Sound known := by
  refine ⟨nofun, nofun, ?_⟩
  intro program loaded
  cases loaded

theorem performAll_append (s : Session) (actions : List Action) (action : Action) :
    s.performAll (actions ++ [action]) = (s.performAll actions).perform action :=
  List.foldl_append

/-- The assemblies of the texts that were in the editor before some of the actions or after all of
them. -/
def Edited (s : Session) (actions : List Action) (a : Assembly) : Prop :=
  ∃ earlier, earlier <+: actions ∧ Assembly.ofSource (s.performAll earlier).source = .ok a

theorem performAll_sound (source : List Char) (actions : List Action) :
    ((start source).performAll actions).Sound ((start source).Edited actions) := by
  induction actions using List.reverseRecOn with
  | nil => exact start_sound source _
  | append_singleton actions action ih =>
    have reached : actions <+: actions ++ [action] := List.prefix_append actions [action]
    rw [performAll_append]
    apply Sound.perform
    · apply ih.mono
      rintro a ⟨earlier, within, compiled⟩
      exact ⟨earlier, within.trans reached, compiled⟩
    · intro a compiled
      exact ⟨actions, reached, compiled⟩

/-- Whatever is done in a session, it is not left in a run. If it is stepping, then a program is
loaded that has not halted, and it is the one that the text in the editor assembles to. What is
loaded has the words and the table of sources of one assembly, that of a text which was in the
editor at some time. So the rows of the context are those of a line, of the scope that it belongs
to, and of the variables of this scope in the order of their declarations, wherever the program
counter is at a word of the program but the halt word behind the main scope, and there are none at
any other address. -/
theorem session_stays_consistent (source : List Char) (actions : List Action) :
    let s := (start source).performAll actions
    s.mode ≠ .running ∧
    (s.mode = .stepping → ∃ program, s.program = some program ∧
      program.processor.state.halted = false ∧
      Assembly.ofSource s.source = .ok program.assembly ∧
      program.processor.code = program.assembly.words.toArray) ∧
    (s.program = none → s.contextLines = []) ∧
    ∀ program, s.program = some program →
      (∃ earlier, earlier <+: actions ∧
        Assembly.ofSource ((start source).performAll earlier).source = .ok program.assembly ∧
        program.processor.code = program.assembly.words.toArray) ∧
      let layout := program.assembly.layout
      let pc := program.processor.state.pc
      (1 ≤ pc ∧ pc ≤ layout.size ∧ pc ≠ layout.main.size + 1 →
        ∃ p ∈ layout.placements, ∃ origin, p.owns pc = true ∧ p.scope.vars = .ok p.vars ∧
          layout.sourceAt? pc = some (origin, p.scope.name) ∧
          s.contextLines = contextRows s.format program.processor.state origin p) ∧
      (¬ (1 ≤ pc ∧ pc ≤ layout.size ∧ pc ≠ layout.main.size + 1) → s.contextLines = []) := by
  intro s
  have sound : s.Sound ((start source).Edited actions) := performAll_sound source actions
  refine ⟨sound.ended, ?_, ?_, ?_⟩
  · intro stepping
    obtain ⟨program, loaded, running, compiled⟩ := sound.stepping stepping
    exact ⟨program, loaded, running, compiled, (sound.whole program loaded).code⟩
  · intro unloaded
    unfold Session.contextLines
    rw [unloaded]
  · intro program loaded
    have rows : s.contextLines = Stepper.contextLines s.format program := by
      unfold Session.contextLines
      rw [loaded]
    obtain ⟨⟨earlier, within, compiled⟩, code⟩ := sound.whole program loaded
    obtain ⟨parsed, _, placed, _⟩ := Assembly.ofSource_eq_ok.mp compiled
    have places := Layout.places_of_ofProgram placed
    refine ⟨⟨earlier, within, compiled, code⟩, ?_, ?_⟩
    · rintro ⟨lower, upper, apart⟩
      obtain ⟨p, member, origin, owned, line, shown⟩ :=
        contextLines_inside places s.format lower upper apart
      exact ⟨p, member, origin, owned, places.declared p member, line, rows.trans shown⟩
    · intro outside
      rw [rows]
      apply contextLines_outside places
      omega

/-- A program of three words with a variable. -/
def threeWords : List Char := "VAR x\nMOVLW 3\nMOVWF x\n".toList

/-- After two steps the text is changed to one that does not assemble. The program of the former
text stays loaded, with its lines, until the next step refuses the new one. -/
theorem threeWords_context :
    let s := (start threeWords).performAll [.step, .step, .edit "BOGUS 1".toList]
    s.mode = .editing ∧ s.contextLines =
        ["Line 3: MOVWF x", "Scope: __main__", "  x          [  1] 0"] ∧
      (∃ program, s.program = some program ∧ ∃ earlier,
        Assembly.ofSource ((start threeWords).performAll earlier).source = .ok program.assembly) ∧
      ((start threeWords).performAll [.step, .step, .edit "BOGUS 1".toList, .step]).contextLines =
        [] := by
  intro s
  have shown : s.mode = .editing ∧ s.contextLines =
      ["Line 3: MOVWF x", "Scope: __main__", "  x          [  1] 0"] ∧ s.program.isSome := by
    decide +kernel
  obtain ⟨editing, rows, present⟩ := shown
  obtain ⟨program, loaded⟩ := Option.isSome_iff_exists.mp present
  obtain ⟨_, _, _, whole⟩ :=
    session_stays_consistent threeWords [.step, .step, .edit "BOGUS 1".toList]
  obtain ⟨⟨earlier, _, compiled, _⟩, _⟩ := whole program loaded
  have unloaded : ((start threeWords).performAll
      [.step, .step, .edit "BOGUS 1".toList, .step]).program = none := by
    decide +kernel
  obtain ⟨_, _, empty, _⟩ :=
    session_stays_consistent threeWords [.step, .step, .edit "BOGUS 1".toList, .step]
  exact ⟨editing, rows, ⟨program, loaded, earlier, compiled⟩, empty unloaded⟩

end Session

end Accumulator.Stepper
