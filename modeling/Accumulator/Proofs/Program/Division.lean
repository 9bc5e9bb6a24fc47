import Accumulator.Proofs.Program.Nesting

set_option autoImplicit false

/-!
The division of tokens into the lines of the main scope and the functions, told without reading them
one by one: functions stand between the tokens that open and close them, and the lines outside of
all functions, in their order, are those of the main scope.
-/

namespace Accumulator

open Source

/-- A function by its tokens: the header, the lines of the body, and the token that ends it. -/
structure FunctionText where
  header : Token
  lines : List Token
  terminator : Token
deriving DecidableEq

namespace FunctionText

def name (f : FunctionText) : String := f.header.args.headD ""

def params (f : FunctionText) : List String := f.header.args.tail

/-- The lines of the body behind the declarations of the parameters. -/
def allLines (f : FunctionText) : List Token := f.params.map (f.header.derive "VAR") ++ f.lines

def scope (f : FunctionText) : Scope :=
  Scope.ofBody f.name (some f.header) f.params (f.allLines.map Token.kept) (some f.terminator)

theorem kept_params (f : FunctionText) :
    (f.params.map (f.header.derive "VAR")).map Token.kept =
      f.params.map (f.header.derive "VAR") := by
  rw [List.map_map]
  apply List.map_congr_left
  intro param _
  exact Token.kept_of_instruction rfl

theorem forall_allLines {f : FunctionText} (P : Token → Prop)
    (params : ∀ param, P (f.header.derive "VAR" param)) (lines : ∀ t ∈ f.lines, P t) :
    ∀ t ∈ f.allLines, P t := by
  intro t member
  rcases List.mem_append.mp member with parameter | line
  · obtain ⟨param, _, rfl⟩ := List.mem_map.mp parameter
    exact params param
  · exact lines t line

theorem inBody_allLines (f : FunctionText) (inside : ∀ t ∈ f.lines, t.InBody) :
    ∀ t ∈ f.allLines, t.InBody :=
  forall_allLines Token.InBody (fun _ => .inl rfl) inside

end FunctionText

/-- Tokens are divided into the lines of the main scope and the functions. -/
inductive Divides : List Token → List Token → List FunctionText → Prop
  | nil : Divides [] [] []
  | line (t : Token) (rest main : List Token) (functions : List FunctionText) (inside : t.InBody)
      (divides : Divides rest main functions) : Divides (t :: rest) (t :: main) functions
  | function (f : FunctionText) (rest main : List Token) (functions : List FunctionText)
      (opens : f.header.kind = .keyword .function) (inside : ∀ t ∈ f.lines, t.InBody)
      (closes : f.terminator.kind = .keyword .finish) (divides : Divides rest main functions) :
      Divides (f.header :: f.lines ++ f.terminator :: rest) main (f :: functions)

/-- Lines above tokens that are divided belong to the main scope. -/
theorem Divides.behind {lines rest main : List Token} {functions : List FunctionText}
    (inside : ∀ t ∈ lines, t.InBody) (divides : Divides rest main functions) :
    Divides (lines ++ rest) (lines ++ main) functions := by
  induction lines with
  | nil => exact divides
  | cons t lines ih =>
    rw [List.forall_mem_cons] at inside
    exact .line t _ _ _ inside.1 (ih inside.2)

instance (t : Token) : Decidable t.InBody :=
  inferInstanceAs (Decidable (_ ∨ _))

mutual

/-- The lines of the main scope and the functions of tokens that begin outside of all functions. -/
def divideLines : List Token → Option (List Token × List FunctionText)
  | [] => some ([], [])
  | t :: rest =>
    if t.kind = .keyword .function then
      (divideFunction rest).map fun (lines, terminator, main, functions) =>
        (main, ⟨t, lines, terminator⟩ :: functions)
    else if t.InBody then
      (divideLines rest).map fun (main, functions) => (t :: main, functions)
    else none

/-- The same of tokens that begin in a function, with the lines up to its end and this end. -/
def divideFunction : List Token → Option (List Token × Token × List Token × List FunctionText)
  | [] => none
  | t :: rest =>
    if t.kind = .keyword .finish then
      (divideLines rest).map fun (main, functions) => ([], t, main, functions)
    else if t.InBody then
      (divideFunction rest).map fun (lines, behind) => (t :: lines, behind)
    else none

end

theorem Source.Token.InBody.not_function {t : Token} (inside : t.InBody) :
    t.kind ≠ .keyword .function ∧ t.kind ≠ .keyword .finish := by
  rcases inside with instruction | label
  · rw [instruction]
    exact ⟨nofun, nofun⟩
  · obtain ⟨name, places⟩ := Option.isSome_iff_exists.mp label
    rcases Token.placedLabel?_eq_some places with ⟨kind, _⟩ | ⟨kind, _⟩
    · rw [kind]
      exact ⟨nofun, nofun⟩
    · rw [kind]
      exact ⟨nofun, nofun⟩

theorem divideFunction_append (lines : List Token) (terminator : Token) (rest : List Token)
    (inside : ∀ t ∈ lines, t.InBody) (closes : terminator.kind = .keyword .finish) :
    divideFunction (lines ++ terminator :: rest) =
      (divideLines rest).map fun (main, functions) => (lines, terminator, main, functions) := by
  induction lines with
  | nil =>
    rw [List.nil_append, divideFunction, if_pos closes]
  | cons t lines ih =>
    have first := inside t List.mem_cons_self
    have later := ih fun other member => inside other (List.mem_cons_of_mem _ member)
    rw [List.cons_append, divideFunction, if_neg first.not_function.2, if_pos first, later,
      Option.map_map]
    rfl

/-- What follows tokens that are divided is divided on its own. -/
theorem Divides.divideLines_append {upper main : List Token} {functions : List FunctionText}
    (divides : Divides upper main functions) (lower : List Token) :
    divideLines (upper ++ lower) =
      (divideLines lower).map fun (more, others) => (main ++ more, functions ++ others) := by
  induction divides with
  | nil => exact Option.map_id'.symm
  | line t rest main functions inside _ ih =>
    rw [List.cons_append, divideLines, if_neg inside.not_function.1, if_pos inside, ih, Option.map_map]
    rfl
  | function f rest main functions opens inside closes _ ih =>
    rw [List.append_assoc, List.cons_append, List.cons_append, divideLines, if_pos opens,
      divideFunction_append f.lines f.terminator _ inside closes, ih, Option.map_map, Option.map_map]
    rfl

/-- Tokens are divided in one way at most. -/
theorem Divides.divideLines_eq {tokens main : List Token} {functions : List FunctionText}
    (divides : Divides tokens main functions) : divideLines tokens = some (main, functions) := by
  have alone := divides.divideLines_append []
  rw [List.append_nil, divideLines, Option.map_some] at alone
  simpa only [List.append_nil] using alone

/-- The division that is found token by token is one. -/
theorem divides_of_divideLines (tokens : List Token) :
    (∀ main functions, divideLines tokens = some (main, functions) →
      Divides tokens main functions) ∧
    ∀ lines terminator main functions,
      divideFunction tokens = some (lines, terminator, main, functions) →
      ∃ rest, tokens = lines ++ terminator :: rest ∧ (∀ t ∈ lines, t.InBody) ∧
        terminator.kind = .keyword .finish ∧ Divides rest main functions := by
  induction tokens with
  | nil =>
    refine ⟨?_, ?_⟩
    · intro main functions found
      rw [divideLines] at found
      cases found
      exact .nil
    · intro lines terminator main functions found
      rw [divideFunction] at found
      cases found
  | cons t rest ih =>
    obtain ⟨outside, within⟩ := ih
    refine ⟨?_, ?_⟩
    · intro main functions found
      rw [divideLines] at found
      split at found
      · rename_i opens
        obtain ⟨⟨lines, terminator, main, functions⟩, behind, same⟩ := Option.map_eq_some_iff.mp found
        cases same
        obtain ⟨rest, rfl, inside, closes, divides⟩ := within _ _ _ _ behind
        exact .function ⟨t, lines, terminator⟩ rest main functions opens inside closes divides
      · split at found
        · rename_i inside
          obtain ⟨⟨main, functions⟩, behind, same⟩ := Option.map_eq_some_iff.mp found
          cases same
          exact .line t rest main functions inside (outside _ _ behind)
        · cases found
    · intro lines terminator main functions found
      rw [divideFunction] at found
      split at found
      · rename_i closes
        obtain ⟨⟨main, functions⟩, behind, same⟩ := Option.map_eq_some_iff.mp found
        cases same
        exact ⟨rest, rfl, nofun, closes, outside _ _ behind⟩
      · split at found
        · rename_i inside
          obtain ⟨⟨lines, terminator, main, functions⟩, behind, same⟩ :=
            Option.map_eq_some_iff.mp found
          cases same
          obtain ⟨rest, rfl, others, closes, divides⟩ := within _ _ _ _ behind
          refine ⟨rest, rfl, ?_, closes, divides⟩
          intro other member
          rcases List.mem_cons.mp member with rfl | later
          · exact inside
          · exact others other later
        · cases found

theorem divides_iff (tokens main : List Token) (functions : List FunctionText) :
    Divides tokens main functions ↔ divideLines tokens = some (main, functions) :=
  ⟨Divides.divideLines_eq, (divides_of_divideLines tokens).1 main functions⟩

instance (tokens main : List Token) (functions : List FunctionText) :
    Decidable (Divides tokens main functions) :=
  decidable_of_iff _ (divides_iff tokens main functions).symm

/-- A function stands among tokens: its header, its lines and the end that closes it. -/
structure FunctionText.PartOf (f : FunctionText) (tokens : List Token) : Prop where
  header : f.header ∈ tokens
  opens : f.header.kind = .keyword .function
  lines : ∀ t ∈ f.lines, t ∈ tokens ∧ t.InBody
  terminator : f.terminator ∈ tokens
  closes : f.terminator.kind = .keyword .finish

theorem FunctionText.PartOf.below {f : FunctionText} {rest : List Token} (part : f.PartOf rest)
    (upper : List Token) : f.PartOf (upper ++ rest) where
  header := List.mem_append_right upper part.header
  opens := part.opens
  lines t line := ⟨List.mem_append_right upper (part.lines t line).1, (part.lines t line).2⟩
  terminator := List.mem_append_right upper part.terminator
  closes := part.closes

theorem Divides.partOf {tokens main : List Token} {functions : List FunctionText}
    (divides : Divides tokens main functions) : ∀ f ∈ functions, f.PartOf tokens := by
  induction divides with
  | nil => exact nofun
  | line t rest main functions _ _ ih => exact fun f member => (ih f member).below [t]
  | function f rest main functions opens inside closes _ ih =>
    intro g member
    rcases List.mem_cons.mp member with rfl | behind
    · exact ⟨by simp, opens, fun t line => ⟨by simp [line], inside t line⟩, by simp, closes⟩
    · rw [List.append_cons]
      exact (ih g behind).below _

theorem Divides.main_inBody {tokens main : List Token} {functions : List FunctionText}
    (divides : Divides tokens main functions) : ∀ t ∈ main, t ∈ tokens ∧ t.InBody := by
  induction divides with
  | nil => exact nofun
  | line t rest main functions inside _ ih =>
    intro other member
    rcases List.mem_cons.mp member with rfl | later
    · exact ⟨List.mem_cons_self, inside⟩
    · exact ⟨List.mem_cons_of_mem _ (ih other later).1, (ih other later).2⟩
  | function f rest main functions _ _ _ _ ih =>
    intro t member
    exact ⟨by simp [(ih t member).1], (ih t member).2⟩

theorem Divides.inBody {tokens main : List Token} {functions : List FunctionText}
    (divides : Divides tokens main functions) :
    (∀ t ∈ main, t ∈ tokens ∧ t.InBody) ∧
      ∀ f ∈ functions, ∀ t ∈ f.lines, t ∈ tokens ∧ t.InBody :=
  ⟨divides.main_inBody, fun f member => (divides.partOf f member).lines⟩

namespace Nesting

/-- What the tokens up to the end of all functions add to what has been read: outside of functions,
and inside of one. -/
structure Divided (tokens : List Token) (n last : Nesting) : Prop where
  outside : n.current = none → ∃ main functions, Divides tokens main functions ∧
    last.main = n.main ++ main.map Token.kept ∧
    last.functions = n.functions ++ functions.map FunctionText.scope
  inside : ∀ f, n.current = some f → ∃ lines terminator rest main functions,
    tokens = lines ++ terminator :: rest ∧ (∀ t ∈ lines, t.InBody) ∧
    terminator.kind = .keyword .finish ∧ Divides rest main functions ∧
    last.main = n.main ++ main.map Token.kept ∧
    last.functions = n.functions ++ Scope.ofBody f.name (some f.header) f.params
      (f.body ++ lines.map Token.kept) (some terminator) :: functions.map FunctionText.scope

theorem Divided.line {t : Token} {tokens : List Token} {n last : Nesting} (inside : t.InBody)
    (divided : Divided tokens (n.push t.kept) last) : Divided (t :: tokens) n last := by
  unfold push at divided
  refine ⟨?_, ?_⟩
  · intro idle
    rw [idle] at divided
    obtain ⟨main, functions, divides, lines, scopes⟩ := divided.outside rfl
    refine ⟨t :: main, functions, .line t _ _ _ inside divides, ?_, scopes⟩
    rw [lines, List.map_cons, List.append_assoc, List.singleton_append]
  · intro f opened
    rw [opened] at divided
    obtain ⟨lines, terminator, rest, main, functions, rfl, body, closes, divides, mainLines, scopes⟩ :=
      divided.inside _ rfl
    refine ⟨t :: lines, terminator, rest, main, functions, rfl, ?_, closes, divides, mainLines, ?_⟩
    · intro other member
      rcases List.mem_cons.mp member with rfl | later
      · exact inside
      · exact body other later
    · rw [scopes, List.map_cons, List.append_assoc, List.singleton_append]

theorem Divided.opens {t : Token} {tokens : List Token} {n last : Nesting} {name : String}
    {params : List String} (header : t.kind = .keyword .function) (idle : n.current = none)
    (args : t.args = name :: params)
    (divided : Divided tokens
      { n with current := some ⟨t, name, params, params.map (t.derive "VAR")⟩ } last) :
    Divided (t :: tokens) n last := by
  refine ⟨?_, ?_⟩
  · intro _
    obtain ⟨lines, terminator, rest, main, functions, rfl, body, closes, divides, mainLines, scopes⟩ :=
      divided.inside _ rfl
    let f : FunctionText := ⟨t, lines, terminator⟩
    have named : f.name = name := by
      unfold FunctionText.name
      rw [args, List.headD_cons]
    have params : f.params = params := by
      unfold FunctionText.params
      rw [args, List.tail_cons]
    refine ⟨main, f :: functions, .function f rest main functions header body closes divides,
      mainLines, ?_⟩
    rw [scopes, List.map_cons]
    unfold FunctionText.scope FunctionText.allLines
    rw [List.map_append, f.kept_params, named, params]
  · intro f opened
    rw [idle] at opened
    cases opened

theorem Divided.closes {t : Token} {tokens : List Token} {n last : Nesting} {f : OpenFunction}
    (terminator : t.kind = .keyword .finish) (opened : n.current = some f)
    (divided : Divided tokens
      { n with
        functions := n.functions ++ [Scope.ofBody f.name (some f.header) f.params f.body (some t)]
        current := none } last) :
    Divided (t :: tokens) n last := by
  refine ⟨?_, ?_⟩
  · intro idle
    rw [opened] at idle
    cases idle
  · intro g also
    rw [opened] at also
    cases also
    obtain ⟨main, functions, divides, lines, scopes⟩ := divided.outside rfl
    refine ⟨[], t, tokens, main, functions, rfl, nofun, terminator, divides, lines, ?_⟩
    rw [scopes, List.append_assoc, List.singleton_append, List.map_nil, List.append_nil]

theorem divided_of_foldlM (tokens : List Token) (n last : Nesting)
    (accepted : tokens.foldlM accept n = .ok last) (ended : last.current = none) :
    Divided tokens n last := by
  induction tokens generalizing n with
  | nil =>
    rw [List.foldlM_nil, pure_eq_ok] at accepted
    subst accepted
    refine ⟨fun _ => ⟨[], [], .nil, by simp, by simp⟩, ?_⟩
    intro f opened
    rw [ended] at opened
    cases opened
  | cons t tokens ih =>
    rw [List.foldlM_cons, bind_eq_ok] at accepted
    obtain ⟨next, here, later⟩ := accepted
    have divided := ih next later
    cases accept_step here with
    | line inside _ _ => exact divided.line inside
    | opens name params header idle args _ _ _ => exact divided.opens header idle args
    | closes f terminator opened _ => exact divided.closes terminator opened

end Nesting

/-- The scopes of a program are those of the lines and the functions that its tokens are divided
into. -/
theorem Program.divides {tokens : List Token} {program : Program}
    (parsed : Program.ofTokens tokens = .ok program) :
    ∃ main functions, Divides tokens main functions ∧
      program.main = Scope.ofBody mainName none [] (main.map Token.kept) none ∧
      program.functions = functions.map FunctionText.scope := by
  obtain ⟨n, accepted, ended, rfl⟩ := Program.ofTokens_eq_ok.mp parsed
  have divided := Nesting.divided_of_foldlM tokens .start n accepted ended
  obtain ⟨main, functions, divides, lines, scopes⟩ := divided.outside rfl
  change n.main = [] ++ main.map Token.kept at lines
  change n.functions = [] ++ functions.map FunctionText.scope at scopes
  rw [List.nil_append] at lines scopes
  exact ⟨main, functions, divides, by rw [lines], scopes⟩

end Accumulator
