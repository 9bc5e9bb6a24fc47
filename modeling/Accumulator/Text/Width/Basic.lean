import Accumulator.Text.Cluster.Property
import Accumulator.Text.Width.Property

set_option autoImplicit false

/-!
The number of terminal columns that a cluster takes. It is the sum of what its characters take,
each seen with what follows it: a style selector, a skin tone or a joiner changes what the
character before it takes.
-/

namespace Accumulator.Text

/-- Combining marks that leave a conjunct as it is. -/
def invisibleMarkRanges : List (Nat × Nat) :=
  [(0x34F, 0x34F), (0x17B4, 0x17B5), (0x180B, 0x180D), (0x180F, 0x180F), (0x200D, 0x200D),
   (0xFE00, 0xFE0F), (0xE0100, 0xE01EF)]

/-- Khmer letters that are written under the letter before them when a linker asks for it. -/
def subscriptRanges : List (Nat × Nat) :=
  [(0x1780, 0x1782), (0x1784, 0x1787), (0x1789, 0x178C), (0x178E, 0x1793), (0x1795, 0x1798),
   (0x179B, 0x179D), (0x17A0, 0x17A0), (0x17A2, 0x17A2), (0x17A7, 0x17A7), (0x17AB, 0x17AC),
   (0x17AF, 0x17AF)]

def skinToneRanges : List (Nat × Nat) := [(0x1F3FB, 0x1F3FF)]

def tagLetterRanges : List (Nat × Nat) := [(0xE0061, 0xE007A)]

def tagDigitRanges : List (Nat × Nat) := [(0xE0030, 0xE0039)]

/-- The enclosed ideographs, which are wide in either style. -/
def enclosedIdeographRanges : List (Nat × Nat) := [(0x1F200, 0x1F2FF)]

def isRegional (c : Char) : Bool := inRanges regionalRanges c

def isSkinTone (c : Char) : Bool := inRanges skinToneRanges c

def isEmoji (c : Char) : Bool := inRanges emojiRanges c

def hasEmojiStyle (c : Char) : Bool := inRanges styledRanges c

/-- Whether a character that is shown as emoji has a plain form of one column. -/
def hasNarrowStyle (c : Char) : Bool :=
  isEmoji c && hasEmojiStyle c && !inRanges enclosedIdeographRanges c

/-- The columns of a character by itself. -/
def columns (c : Char) : Nat :=
  if ' ' ≤ c && c ≤ '~' then 1
  else if c = '\u17d8' then 3
  else if c = '\u115f' || c = '\u17a4' then 2
  else if inRanges zeroWidthRanges c then 0
  else if inRanges wideRanges c then 2
  else 1

/-- What follows a character, as far as it changes what the character takes. -/
inductive Following
  | plain
  | textStyle
  | emojiStyle
  | emoji
  | skinTone
  | joined
  | joinedStyle
  | joinedKeycap
  | joinedFlag
  | joinedTags (letters : Nat)
  | joinedDigits (digits : Nat)
  | subscript
deriving DecidableEq, Repr

namespace Following

/-- The columns of a character that what follows does not change, and what it is to the character
before it. -/
def alone (c : Char) : Int × Following :=
  (columns c,
    if c = '\ufe0e' then .textStyle
    else if c = '\ufe0f' then .emojiStyle
    else if isSkinTone c then .skinTone
    else if isEmoji c then .emoji
    else if inRanges subscriptRanges c then .subscript
    else .plain)

/-- The columns that a character adds before what follows it, and what both are to the character
before them. Joined pictographs take the two columns of the last one; a linker or half a flag that
makes what follows narrower takes a column back. -/
def before (c : Char) : Following → Int × Following
  | .plain => alone c
  | .textStyle => if hasNarrowStyle c then (1, .plain) else alone c
  | .emojiStyle => if hasEmojiStyle c then (2, .emoji) else alone c
  | .emoji => if c = '\u200d' then (0, .joined) else alone c
  | .skinTone =>
    if inRanges figureRanges c then (0, .emoji)
    else if c = '\u200d' then (0, .joined)
    else alone c
  | .joined =>
    if c = '\ufe0f' then (0, .joinedStyle)
    else if c = '\u20e3' then (0, .joinedKeycap)
    else if isRegional c then (1, .joinedFlag)
    else if isSkinTone c then (0, .skinTone)
    else if c.toNat = 0xE007F then (0, .joinedTags 0)
    else if isEmoji c then (0, .emoji)
    else alone c
  | .joinedStyle => if hasEmojiStyle c then (0, .emoji) else alone c
  | .joinedKeycap => if c = '\ufe0f' then (0, .joinedStyle) else alone c
  | .joinedFlag => if isRegional c then (-1, .plain) else alone c
  | .joinedTags n =>
    if inRanges tagLetterRanges c && n < 6 then (0, .joinedTags (n + 1))
    else if inRanges tagDigitRanges c && n ≤ 4 then (0, .joinedDigits 1)
    else if c.toNat = 0x1F3F4 && 3 ≤ n then (0, .emoji)
    else alone c
  | .joinedDigits n =>
    if inRanges tagDigitRanges c && n < 3 then (0, .joinedDigits (n + 1))
    else if c.toNat = 0x1F3F4 && n = 3 then (0, .emoji)
    else alone c
  | .subscript =>
    if inRanges invisibleMarkRanges c then (0, .subscript)
    else if c = '\u17d2' then (-1, .plain)
    else alone c

end Following

/-- The columns of a cluster, and what it is to a character before it. -/
def measure : List Char → Int × Following
  | [] => (0, .plain)
  | c :: cs =>
    let (rest, following) := measure cs
    let (own, whole) := following.before c
    (own + rest, whole)

/-- The columns of a cluster. -/
def width (cluster : List Char) : Nat := (measure cluster).1.toNat

end Accumulator.Text
