import Accumulator.Proofs.Source.Replacement

set_option autoImplicit false

/-!
What definitions leave of an argument. If no value contains a name as a word, the words that are names are
replaced by their last values, all at once and in whatever order they were defined
(`substitute_replaces_words`). If values contain names, a later definition may change what the earlier
ones make of an argument, and `later_definition_changes` tells when it does.
-/

namespace Accumulator

open Source

namespace Source.Constants

/-- The constants after a sequence of definitions. -/
def ofDefinitions (definitions : List (String × String)) : Constants :=
  definitions.foldl (fun known (name, value) => known.define name value) empty

/-- The value that a name was given last. -/
def lastValue (definitions : List (String × String)) (name : String) : Option String :=
  definitions.reverse.lookup name

theorem get?_define_self (c : Constants) (name value : String) :
    (c.define name value).get? name = some value := by
  unfold get? define
  dsimp only
  induction c.entries with
  | nil => rw [put, List.lookup_cons_self]
  | cons entry rest ih =>
    unfold put
    by_cases same : entry.1 = name
    · rw [if_pos same, List.lookup_cons_self]
    · rw [if_neg same, lookup_behind (Ne.symm same), ih]

theorem ofDefinitions_concat (definitions : List (String × String)) (last : String × String) :
    ofDefinitions (definitions ++ [last]) = (ofDefinitions definitions).define last.1 last.2 := by
  unfold ofDefinitions
  rw [List.foldl_append]
  rfl

theorem get?_ofDefinitions (definitions : List (String × String)) (name : String) :
    (ofDefinitions definitions).get? name = lastValue definitions name := by
  unfold lastValue
  induction definitions using List.reverseRecOn with
  | nil => rfl
  | append_singleton definitions last ih =>
    rw [ofDefinitions_concat, List.reverse_append, List.reverse_singleton, List.singleton_append]
    by_cases same : name = last.1
    · rw [same, get?_define_self, List.lookup_cons_self]
    · rw [get?_define _ same, lookup_behind same, ih]

theorem Named.define {c : Constants} (named : c.Named) {name : String} (value : String)
    (identifier : Text.isIdentifier name = true) : (c.define name value).Named := by
  unfold Named Constants.define at *
  dsimp only
  generalize c.entries = entries at named
  induction entries with
  | nil => simpa [put] using identifier
  | cons entry rest ih =>
    rw [List.forall_mem_cons] at named
    unfold put
    split
    · exact List.forall_mem_cons.mpr ⟨identifier, named.2⟩
    · exact List.forall_mem_cons.mpr ⟨named.1, ih named.2⟩

theorem named_ofDefinitions (definitions : List (String × String))
    (identifiers : ∀ d ∈ definitions, Text.isIdentifier d.1 = true) :
    (ofDefinitions definitions).Named := by
  induction definitions using List.reverseRecOn with
  | nil => exact nofun
  | append_singleton definitions last ih =>
    rw [ofDefinitions_concat]
    have before := ih fun d member => identifiers d (List.mem_append_left _ member)
    exact before.define last.2 (identifiers last (by simp))

theorem lastValue_eq_none_iff (definitions : List (String × String)) (name : String) :
    lastValue definitions name = none ↔ name ∉ definitions.map Prod.fst := by
  unfold lastValue
  rw [List.lookup_eq_none_iff]
  constructor
  · intro apart member
    obtain ⟨d, inside, rfl⟩ := List.mem_map.mp member
    simpa using apart d (List.mem_reverse.mpr inside)
  · intro absent d member
    rw [bne_iff_ne]
    rintro rfl
    exact absent (List.mem_map_of_mem (List.mem_reverse.mp member))

theorem mem_of_lastValue {definitions : List (String × String)} {name value : String}
    (found : lastValue definitions name = some value) : (name, value) ∈ definitions := by
  obtain ⟨front, back, split, _⟩ := List.lookup_eq_some_iff.mp found
  rw [← List.mem_reverse, split]
  exact List.mem_append_right front List.mem_cons_self

/-- Definitions with the same last values have the same names. -/
theorem identifiers_of_same {definitions others : List (String × String)}
    (identifiers : ∀ d ∈ definitions, Text.isIdentifier d.1 = true)
    (same : ∀ name, lastValue others name = lastValue definitions name) :
    ∀ d ∈ others, Text.isIdentifier d.1 = true := by
  intro d member
  have defined : lastValue definitions d.1 ≠ none := by
    rw [← same, Ne, lastValue_eq_none_iff, Classical.not_not]
    exact List.mem_map_of_mem member
  rw [Ne, lastValue_eq_none_iff, Classical.not_not] at defined
  obtain ⟨e, inside, named⟩ := List.mem_map.mp defined
  exact named ▸ identifiers e inside

theorem substitute_ofDefinitions (definitions : List (String × String))
    (identifiers : ∀ d ∈ definitions, Text.isIdentifier d.1 = true)
    (closed : ∀ name value, lastValue definitions name = some value →
      ∀ run ∈ Text.runs value.toList, lastValue definitions (String.ofList run) = none)
    (argument : String) :
    (ofDefinitions definitions).substitute argument =
      replaceWords (lastValue definitions) argument := by
  have values : (ofDefinitions definitions).get? = lastValue definitions :=
    funext (get?_ofDefinitions definitions)
  rw [← values]
  apply substitute_of_settled (named_ofDefinitions definitions identifiers)
  rw [values]
  exact fun run _ value found => closed _ value found

/-- If no value contains a name as a word, an argument has each of its words that is a name replaced by
the value that the name was given last, and is otherwise kept. So it does not matter in which order
different names were defined, and each word, with nothing but its own borders on either side, is
replaced or kept as a whole. -/
theorem substitute_replaces_words (definitions : List (String × String))
    (identifiers : ∀ d ∈ definitions, Text.isIdentifier d.1 = true)
    (closed : ∀ name value, lastValue definitions name = some value →
      ∀ run ∈ Text.runs value.toList, lastValue definitions (String.ofList run) = none) :
    (∀ argument, (ofDefinitions definitions).substitute argument =
        replaceWords (lastValue definitions) argument) ∧
      (∀ others, (∀ name, lastValue others name = lastValue definitions name) → ∀ argument,
        (ofDefinitions others).substitute argument =
          (ofDefinitions definitions).substitute argument) ∧
      ∀ before word after : List Char, Text.IsWord word →
        (∀ c ∈ before.getLast?, Text.isWordChar c = false) → Text.Apart after →
        (ofDefinitions definitions).substitute (String.ofList (before ++ (word ++ after))) =
          (ofDefinitions definitions).substitute (String.ofList before) ++
            (lastValue definitions (String.ofList word)).getD (String.ofList word) ++
            (ofDefinitions definitions).substitute (String.ofList after) := by
  have simultaneous := substitute_ofDefinitions definitions identifiers closed
  refine ⟨simultaneous, ?_, ?_⟩
  · intro others same argument
    have values : lastValue others = lastValue definitions := funext same
    rw [simultaneous, ← values]
    apply substitute_ofDefinitions others (identifiers_of_same identifiers same)
    rwa [values]
  · intro before word after isWord ends apart
    have border : ∀ c ∈ before.getLast?, ∀ d ∈ (word ++ after).head?,
        ¬ (Text.isWordChar c = true ∧ Text.isWordChar d = true) := by
      intro c last d _ both
      rw [ends c last] at both
      exact Bool.false_ne_true both.1
    have value : String.ofList (expandRun (lastValue definitions) word) =
        (lastValue definitions (String.ofList word)).getD (String.ofList word) := by
      unfold expandRun
      split
      · rename_i value found
        rw [found, Option.getD_some, String.ofList_toList]
      · rename_i missing
        rw [missing, Option.getD_none]
    rw [simultaneous, simultaneous, simultaneous, ← value]
    unfold replaceWords
    rw [String.toList_ofList, String.toList_ofList, String.toList_ofList,
      Text.mapRuns_append _ _ _ border, Text.mapRuns_word _ isWord apart, String.ofList_append,
      String.ofList_append, String.append_assoc]

/-- A name inside of a longer one is not touched, and the second value of a name counts. -/
theorem redefined_replaces_words :
    (ofDefinitions [("N", "4"), ("WIDTH", "N1-2"), ("N", "7")]).substitute "N+N1*(WIDTH)" =
      "7+N1*(N1-2)" := by
  have foreign : ∀ d ∈ [("N", "4"), ("WIDTH", "N1-2"), ("N", "7")], ∀ run ∈ Text.runs d.2.toList,
      lastValue [("N", "4"), ("WIDTH", "N1-2"), ("N", "7")] (String.ofList run) = none := by
    decide +kernel
  have replaced := (substitute_replaces_words [("N", "4"), ("WIDTH", "N1-2"), ("N", "7")]
    (by decide +kernel) fun name value found => foreign _ (mem_of_lastValue found)).1
  rw [replaced]
  decide +kernel

section Later

theorem put_of_undefined {name : String} (value : String) {entries : List (String × String)}
    (undefined : entries.lookup name = none) : put name value entries = entries ++ [(name, value)] := by
  induction entries with
  | nil => rfl
  | cons entry rest ih =>
    have other : entry.1 ≠ name := by
      rintro rfl
      rw [List.lookup_cons_self] at undefined
      cases undefined
    rw [put, if_neg other, ih (lookup_none_behind undefined)]
    rfl

theorem expandRun_single (name value : String) (run : List Char) :
    expandRun (lastValue [(name, value)]) run = swap name.toList value.toList run := by
  unfold swap
  by_cases same : run = name.toList
  · have found : lastValue [(name, value)] (String.ofList run) = some value := by
      rw [same, String.ofList_toList]
      exact List.lookup_cons_self
    rw [if_pos same, expandRun_of_some found]
  · have missing : lastValue [(name, value)] (String.ofList run) = none := by
      rw [lastValue_eq_none_iff, List.map_singleton, List.mem_singleton]
      exact ofList_ne same
    rw [if_neg same, expandRun_of_none missing]

theorem mapRuns_single (name value : String) (text : List Char) :
    Text.mapRuns (expandRun (lastValue [(name, value)])) text =
      Text.mapRuns (swap name.toList value.toList) text :=
  List.flatMap_congr fun run _ => expandRun_single name value run

/-- A new constant is put into what the constants before it have made of an argument. -/
theorem substitute_define {c : Constants} {name argument : String} (value : String)
    (identifier : Text.isIdentifier name = true) (undefined : c.get? name = none)
    (missing : c.get? argument = none) (other : argument ≠ name) :
    (c.define name value).substitute argument =
      replaceWords (lastValue [(name, value)]) (c.substitute argument) := by
  have still : (c.define name value).get? argument = none := by
    rw [get?_define c other, missing]
  have entries : (c.define name value).entries = c.entries ++ [(name, value)] :=
    put_of_undefined value undefined
  unfold substitute
  rw [still, missing, entries, List.foldl_append]
  dsimp only
  rw [replaceWords, String.toList_ofList, mapRuns_single]
  exact congrArg String.ofList (replace_eq_mapRuns identifier _)

/-- What a text is made of after replacements was in the text or in a value before. -/
theorem mem_runs_foldl_replace {entries : List (String × String)}
    (named : ∀ entry ∈ entries, Text.isIdentifier entry.1 = true) {text run : List Char}
    (member : run ∈ Text.runs (entries.foldl replace text)) :
    run ∈ Text.runs text ∨ ∃ entry ∈ entries, run ∈ Text.runs entry.2.toList := by
  induction entries generalizing text with
  | nil => exact Or.inl member
  | cons entry rest ih =>
    rw [List.forall_mem_cons] at named
    have isWord : Text.IsWord entry.1.toList := Text.word_of_identifier named.1
    rw [List.foldl_cons, replace_eq_mapRuns named.1] at member
    rcases ih named.2 member with before | ⟨later, inside, brought⟩
    · rw [Text.runs_mapRuns (swap_other isWord), List.mem_flatMap] at before
      obtain ⟨place, within, before⟩ := before
      unfold swap at before
      split at before
      · exact Or.inr ⟨entry, List.mem_cons_self, before⟩
      · rw [Text.runs_of_mem within, List.mem_singleton] at before
        exact Or.inl (before ▸ within)
    · exact Or.inr ⟨later, List.mem_cons_of_mem _ inside, brought⟩

/-- What a later definition changes. An argument in which the new name is no word has the same expansion
before and after exactly if it is itself the name of a constant, or its expansion does not contain the
new name as a word, or the new value is the name again. In particular nothing changes if no earlier
value contains the new name; and else the new value is put into the old expansion. -/
theorem later_definition_changes (definitions : List (String × String))
    (identifiers : ∀ d ∈ definitions, Text.isIdentifier d.1 = true) (name value argument : String)
    (identifier : Text.isIdentifier name = true)
    (undefined : (ofDefinitions definitions).get? name = none)
    (absent : name.toList ∉ Text.runs argument.toList) :
    (((ofDefinitions definitions).define name value).substitute argument =
          (ofDefinitions definitions).substitute argument ↔
        ((ofDefinitions definitions).get? argument).isSome = true ∨
          name.toList ∉ Text.runs ((ofDefinitions definitions).substitute argument).toList ∨
          value = name) ∧
      ((∀ entry ∈ (ofDefinitions definitions).entries, name.toList ∉ Text.runs entry.2.toList) →
        ((ofDefinitions definitions).define name value).substitute argument =
          (ofDefinitions definitions).substitute argument) ∧
      ((ofDefinitions definitions).get? argument = none →
        ((ofDefinitions definitions).define name value).substitute argument =
          replaceWords (lastValue [(name, value)])
            ((ofDefinitions definitions).substitute argument)) := by
  have named := named_ofDefinitions definitions identifiers
  generalize ofDefinitions definitions = c at named undefined ⊢
  have isWord : Text.IsWord name.toList := Text.word_of_identifier identifier
  have other : argument ≠ name := by
    rintro rfl
    rw [Text.runs_of_isWord isWord] at absent
    exact absent List.mem_cons_self
  cases found : c.get? argument with
  | some text =>
    have same : (c.define name value).substitute argument = c.substitute argument := by
      unfold substitute
      rw [get?_define c other, found]
    exact ⟨⟨fun _ => Or.inl rfl, fun _ => same⟩, fun _ => same, nofun⟩
  | none =>
    have after := substitute_define value identifier undefined found other
    have exactly : (c.define name value).substitute argument = c.substitute argument ↔
        name.toList ∉ Text.runs (c.substitute argument).toList ∨ value = name := by
      rw [after, replaceWords, mapRuns_single, ← String.toList_inj, String.toList_ofList,
        mapRuns_swap_eq_self_iff, String.toList_inj]
    refine ⟨?_, ?_, fun _ => after⟩
    · rw [exactly]
      simp
    · intro apart
      rw [exactly]
      left
      intro member
      have expansion : (c.substitute argument).toList =
          c.entries.foldl replace argument.toList := by
        unfold substitute
        rw [found, String.toList_ofList]
      rw [expansion] at member
      rcases mem_runs_foldl_replace named member with before | ⟨entry, inside, brought⟩
      · exact absent before
      · exact apart entry inside brought

/-- A constant that stands for another name has that name's later value in a compound argument. -/
theorem aliased_changes :
    ((ofDefinitions [("A", "B")]).define "B" "5").substitute "A+1" ≠
      (ofDefinitions [("A", "B")]).substitute "A+1" := by
  have changes := (later_definition_changes [("A", "B")] (by decide +kernel) "B" "5" "A+1"
    (by decide +kernel) (by decide +kernel) (by decide +kernel)).1
  rw [Ne, changes]
  decide +kernel

/-- Constants are not all fixed when they are defined: as an argument of its own the constant keeps its
value, but inside of one the value goes on to be replaced. -/
theorem later_definition_may_change :
    ¬ ∀ (definitions : List (String × String)) (name value argument : String),
      (∀ d ∈ definitions, Text.isIdentifier d.1 = true) → Text.isIdentifier name = true →
      (ofDefinitions definitions).get? name = none →
      name.toList ∉ Text.runs argument.toList →
      ((ofDefinitions definitions).define name value).substitute argument =
        (ofDefinitions definitions).substitute argument := by
  intro fixed
  have same := fixed [("A", "B")] "B" "5" "A+1" (by decide +kernel) (by decide +kernel)
    (by decide +kernel) (by decide +kernel)
  revert same
  decide +kernel

end Later

end Source.Constants

end Accumulator
