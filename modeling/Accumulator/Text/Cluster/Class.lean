import Accumulator.Text.Cluster.Property

set_option autoImplicit false

/-!
The classes of characters that the rules of clusters distinguish.
-/

namespace Accumulator.Text

/-- What a character is to its neighbours. Hangul syllables are written as a leading consonant, a
vowel and a trailing consonant, or as one character that is open (it ends in a vowel) or closed. -/
inductive ClusterClass
  | carriageReturn
  | lineFeed
  | control
  | extend
  | linker
  | nonJoiner
  | joiner
  | spacing
  | prepend
  | regional
  | pictographic
  | consonant
  | leading
  | vowel
  | trailing
  | openSyllable
  | closedSyllable
  | other
deriving DecidableEq, Repr

namespace ClusterClass

def leadingRanges : List (Nat × Nat) := [(0x1100, 0x115F), (0xA960, 0xA97C)]

/-- The vowels of Hangul, and the vowel signs of Kirat Rai, which combine in the same way. -/
def vowelRanges : List (Nat × Nat) :=
  [(0x1160, 0x11A7), (0xD7B0, 0xD7C6), (0x16D63, 0x16D63), (0x16D67, 0x16D6A)]

def trailingRanges : List (Nat × Nat) := [(0x11A8, 0x11FF), (0xD7CB, 0xD7FB)]

/-- The class of a character among the Hangul syllables. There are twenty-eight for each pair of a
leading consonant and a vowel, the open one first. -/
def ofSyllable (c : Char) : ClusterClass :=
  if (c.toNat - 0xAC00) % 28 = 0 then .openSyllable else .closedSyllable

def ofChar (c : Char) : ClusterClass :=
  if c = '\r' then .carriageReturn
  else if c = '\n' then .lineFeed
  else if ' ' ≤ c && c ≤ '~' then .other
  else if inRanges controlRanges c then .control
  else if c = '\u200c' then .nonJoiner
  else if c = '\u200d' then .joiner
  else if inRanges linkerRanges c then .linker
  else if inRanges extendRanges c then .extend
  else if inRanges spacingRanges c then .spacing
  else if inRanges prependRanges c then .prepend
  else if inRanges regionalRanges c then .regional
  else if inRanges pictographicRanges c then .pictographic
  else if inRanges consonantRanges c then .consonant
  else if inRanges leadingRanges c then .leading
  else if inRanges vowelRanges c then .vowel
  else if inRanges trailingRanges c then .trailing
  else if '\uac00' ≤ c && c ≤ '\ud7a3' then .ofSyllable c
  else .other

end ClusterClass

end Accumulator.Text
