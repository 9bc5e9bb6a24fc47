import Accumulator.Text.Cluster.Class

set_option autoImplicit false

/-!
Clusters are the units of a text that a reader takes for one character: a letter with its marks, a
Hangul syllable, a conjunct, a flag, joined pictographs. Splitting off the first cluster of a text
loses nothing and leaves a shorter text.
-/

namespace Accumulator.Text

/-- What the cluster so far would join to, beside what its last character does. -/
inductive Bond
  | plain
  | halfFlag
  | pictograph
  | joined
  | consonant
  | conjunct
deriving DecidableEq, Repr

namespace Bond

/-- The bond of a cluster after one more character. Marks keep a pictograph ready for a joiner, and
a consonant ready for a linker. -/
def next (b : Bond) : ClusterClass → Bond
  | .regional => if b = .halfFlag then .plain else .halfFlag
  | .pictographic => .pictograph
  | .consonant => .consonant
  | .extend =>
    match b with
    | .pictograph | .consonant | .conjunct => b
    | _ => .plain
  | .linker =>
    match b with
    | .pictograph => .pictograph
    | .consonant | .conjunct => .conjunct
    | _ => .plain
  | .nonJoiner => if b = .pictograph then .pictograph else .plain
  | .joiner =>
    match b with
    | .pictograph => .joined
    | .consonant | .conjunct => b
    | _ => .plain
  | _ => .plain

end Bond

/-- Whether a character stays in the cluster of the character before it. -/
def joins (last : ClusterClass) (b : Bond) (next : ClusterClass) : Bool :=
  match last, next with
  | .carriageReturn, .lineFeed => true
  | .carriageReturn, _ | .lineFeed, _ | .control, _ => false
  | _, .carriageReturn | _, .lineFeed | _, .control => false
  | .leading, .leading | .leading, .vowel | .leading, .openSyllable
  | .leading, .closedSyllable => true
  | .openSyllable, .vowel | .vowel, .vowel | .openSyllable, .trailing | .vowel, .trailing => true
  | .closedSyllable, .trailing | .trailing, .trailing => true
  | _, .extend | _, .linker | _, .nonJoiner | _, .joiner | _, .spacing => true
  | .prepend, _ => true
  | _, .consonant => b = .conjunct
  | _, .pictographic => b = .joined
  | _, .regional => b = .halfFlag
  | _, _ => false

/-- The characters of a text that stay in the cluster before it, and the text after them. -/
def continuation (last : ClusterClass) (b : Bond) : List Char → List Char × List Char
  | [] => ([], [])
  | c :: cs =>
    let next := ClusterClass.ofChar c
    if joins last b next then
      let (marks, rest) := continuation next (b.next next) cs
      (c :: marks, rest)
    else ([], c :: cs)

/-- The first cluster of a text, which begins with a character, and the text after it. -/
def splitCluster (c : Char) (cs : List Char) : List Char × List Char :=
  let first := ClusterClass.ofChar c
  let (marks, rest) := continuation first (Bond.plain.next first) cs
  (c :: marks, rest)

theorem continuation_append (last : ClusterClass) (b : Bond) (cs : List Char) :
    (continuation last b cs).1 ++ (continuation last b cs).2 = cs := by
  induction cs generalizing last b with
  | nil => rfl
  | cons c cs ih =>
    unfold continuation
    by_cases h : joins last b (ClusterClass.ofChar c)
    · simp [h, ih]
    · simp [h]

theorem splitCluster_append (c : Char) (cs : List Char) :
    (splitCluster c cs).1 ++ (splitCluster c cs).2 = c :: cs := by
  simp [splitCluster, continuation_append]

theorem length_splitCluster_lt (c : Char) (cs : List Char) :
    (splitCluster c cs).2.length < (c :: cs).length := by
  have h := congrArg List.length (splitCluster_append c cs)
  simp [splitCluster] at h ⊢
  omega

end Accumulator.Text
