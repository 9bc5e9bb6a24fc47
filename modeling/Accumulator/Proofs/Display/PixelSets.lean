import Accumulator.Display.Basic
import Mathlib.Data.Set.Insert

set_option autoImplicit false

/-!
The display seen as sets of pixels. Columns of bits, masks and clipped ranges do the work of three
sets of positions: two that are drawn on, by the parity of the flag, and the one that is seen.
-/

namespace Accumulator

/-- A column, and a row counted from the bottom. -/
abbrev Pixel := Nat × Nat

def onScreen : Set Pixel := {p | p.1 < 32 ∧ p.2 < 32}

/-- The positions from a corner on, `width` of them to the right and `height` of them upwards. -/
def pixelBlock (x y width height : Nat) : Set Pixel :=
  {p | ∃ i < width, ∃ j < height, p = (x + i, y + j)}

/-- Two sets to draw on, the set that is seen, and a flag, the parity of which chooses the set that
is drawn on. -/
structure Canvas where
  first : Set Pixel
  second : Set Pixel
  visible : Set Pixel
  flag : BitVec 32

namespace Canvas

def blank : Canvas := ⟨∅, ∅, ∅, 0⟩

/-- Changes the set that is drawn on. -/
def change (c : Canvas) (f : Set Pixel → Set Pixel) : Canvas :=
  if c.flag.toNat % 2 = 1 then { c with second := f c.second } else { c with first := f c.first }

/-- Adds what is on the screen of some positions. -/
def add (c : Canvas) (positions : Set Pixel) : Canvas :=
  c.change fun drawn => drawn ∪ (positions ∩ onScreen)

/-- Carries out a command on sets. The digits of the value in base 64 are, from the lowest on, the
row and the column of a position and two extents. -/
def execute (c : Canvas) (drawing : Drawing) (value : BitVec 32) : Canvas :=
  let y := value.toNat % 64
  let x := value.toNat / 64 % 64
  let b := value.toNat / 4096 % 64
  let a := value.toNat / 262144 % 64
  match drawing with
  | .clear => c.change fun _ => ∅
  | .render => { c with visible := c.first ∪ c.second }
  | .pixel => c.add {(x, y)}
  | .horizontal => c.add {p | ∃ i < a, p = (x + i, y)}
  | .vertical => c.add {p | ∃ j < a, p = (x, y + j)}
  | .rectangle => c.add {p | ∃ i < a, ∃ j < b, p = (x + i, y + j)}
  | .setFlag => { c with flag := value }
  | .save | .load => c

/-- The canvas after commands that follow one another. -/
def executeAll (c : Canvas) (commands : List (Drawing × BitVec 32)) : Canvas :=
  commands.foldl (fun c (drawing, value) => c.execute drawing value) c

end Canvas

theorem mem_pixelBlock_iff (x y width height : Nat) (p : Pixel) :
    p ∈ pixelBlock x y width height ↔
      (x ≤ p.1 ∧ p.1 < x + width) ∧ y ≤ p.2 ∧ p.2 < y + height := by
  obtain ⟨column, row⟩ := p
  constructor
  · rintro ⟨i, right, j, up, same⟩
    cases same
    dsimp only
    omega
  · rintro ⟨horizontal, vertical⟩
    refine ⟨column - x, by omega, row - y, by omega, ?_⟩
    rw [Nat.add_sub_cancel' horizontal.1, Nat.add_sub_cancel' vertical.1]

theorem pixelBlock_one_one (x y : Nat) : pixelBlock x y 1 1 = {(x, y)} := by
  ext ⟨column, row⟩
  rw [mem_pixelBlock_iff, Set.mem_singleton_iff, Prod.mk.injEq]
  dsimp only
  omega

theorem pixelBlock_row (x y width : Nat) :
    pixelBlock x y width 1 = {p | ∃ i < width, p = (x + i, y)} := by
  ext p
  simp [pixelBlock]

theorem pixelBlock_column (x y height : Nat) :
    pixelBlock x y 1 height = {p | ∃ j < height, p = (x, y + j)} := by
  ext p
  simp [pixelBlock]

namespace Packed

/-- The fields of a word are its digits in base 64. -/
theorem unpack_eq (value : BitVec 32) : unpack value =
    { x := value.toNat / 64 % 64, y := value.toNat % 64, a := value.toNat / 262144 % 64,
      b := value.toNat / 4096 % 64 } := by
  simp [unpack, BitVec.extractLsb'_toNat, Nat.shiftRight_eq_div_pow]

end Packed

namespace Plane

theorem getLsbD_run (start length y : Nat) :
    (run start length).getLsbD y = decide (y < 32 ∧ start ≤ y ∧ y < start + length) := by
  unfold run
  simp only [BitVec.getLsbD_and, BitVec.getLsbD_not, BitVec.getLsbD_shiftLeft,
    BitVec.getLsbD_allOnes]
  apply Bool.eq_iff_iff.mpr
  simp only [Bool.and_eq_true, Bool.not_eq_true', Bool.not_eq_false', Bool.and_eq_false_iff,
    decide_eq_true_eq, decide_eq_false_iff_not]
  omega

theorem pixel_column (p : Plane) (x : Fin 32) (y : Nat) : p.pixel x y = p[x].getLsbD y := by
  unfold pixel
  rw [Vector.getElem?_eq_getElem x.isLt]
  rfl

theorem pixel_outside (p : Plane) (x y : Nat) (outside : ¬ (x < 32 ∧ y < 32)) :
    p.pixel x y = false := by
  unfold pixel
  by_cases column : x < 32
  · rw [Vector.getElem?_eq_getElem column, Option.any_some]
    exact BitVec.getLsbD_of_ge _ y (by omega)
  · rw [Vector.getElem?_eq_none (by omega)]
    rfl

theorem pixel_blank (x y : Nat) : blank.pixel x y = false := by
  by_cases inside : x < 32 ∧ y < 32
  · rw [pixel_column blank ⟨x, inside.1⟩]
    simp [blank]
  · exact pixel_outside _ x y inside

theorem pixel_union (p q : Plane) (x y : Nat) :
    (p.union q).pixel x y = (p.pixel x y || q.pixel x y) := by
  by_cases inside : x < 32 ∧ y < 32
  · simp only [pixel_column _ ⟨x, inside.1⟩]
    simp [union]
  · simp only [pixel_outside _ x y inside, Bool.or_false]

/-- Filling columns with a mask sets its bits there, and leaves all other pixels. -/
theorem pixel_fill (p : Plane) (first width : Nat) (mask : BitVec 32) (x y : Nat)
    (column : x < 32) :
    (p.fill first width mask).pixel x y =
      (p.pixel x y || (decide (first ≤ x ∧ x < first + width) && mask.getLsbD y)) := by
  rw [pixel_column _ ⟨x, column⟩, pixel_column _ ⟨x, column⟩]
  unfold fill
  by_cases within : first ≤ x ∧ x < first + width <;> simp [within]

/-- The pixels of a plane are the positions of a set. -/
def Shows (p : Plane) (positions : Set Pixel) : Prop :=
  ∀ x y, p.pixel x y = true ↔ (x, y) ∈ positions

theorem shows_blank : blank.Shows ∅ := by
  intro x y
  simp [pixel_blank]

theorem Shows.union {p q : Plane} {left right : Set Pixel} (first : p.Shows left)
    (second : q.Shows right) : (p.union q).Shows (left ∪ right) := by
  intro x y
  rw [pixel_union, Bool.or_eq_true, first x y, second x y]
  rfl

theorem Shows.clipped {p : Plane} {positions : Set Pixel} (shows : p.Shows positions) :
    positions ⊆ onScreen := by
  rintro ⟨x, y⟩ member
  by_contra outside
  have set := (shows x y).mpr member
  rw [p.pixel_outside x y outside] at set
  cases set

/-- Filling columns with a run of bits adds a block, as far as it is on the screen. -/
theorem Shows.fill {p : Plane} {positions : Set Pixel} (shows : p.Shows positions)
    (x y width height : Nat) :
    (p.fill x width (run y height)).Shows
      (positions ∪ (pixelBlock x y width height ∩ onScreen)) := by
  intro column row
  by_cases inside : column < 32 ∧ row < 32
  · rw [pixel_fill _ _ _ _ _ _ inside.1, getLsbD_run, Bool.or_eq_true, shows column row,
      Set.mem_union, Set.mem_inter_iff, mem_pixelBlock_iff]
    simp only [Bool.and_eq_true, decide_eq_true_eq, inside, true_and]
    exact or_congr_right (and_iff_left inside).symm
  · rw [pixel_outside _ _ _ inside]
    constructor
    · exact nofun
    · rintro (before | ⟨_, within⟩)
      · exact absurd (shows.clipped before) inside
      · exact absurd within inside

end Plane

namespace Display

/-- A display shows a canvas: plane by plane, and with the same flag. -/
structure Shows (d : Display) (c : Canvas) : Prop where
  first : d.first.Shows c.first
  second : d.second.Shows c.second
  screen : d.screen.Shows c.visible
  flag : d.flag = c.flag

/-- The display after commands that follow one another. -/
def executeAll (d : Display) (commands : List (Drawing × BitVec 32)) : Display :=
  commands.foldl (fun d (drawing, value) => d.execute drawing value) d

theorem shows_blank : blank.Shows Canvas.blank :=
  ⟨Plane.shows_blank, Plane.shows_blank, Plane.shows_blank, rfl⟩

theorem secondActive_eq (d : Display) : d.secondActive = decide (d.flag.toNat % 2 = 1) := by
  unfold secondActive
  rw [← BitVec.testBit_toNat, Nat.testBit_zero]

/-- A change of the active plane is one of the set that is drawn on. -/
theorem Shows.change {d : Display} {c : Canvas} (shows : d.Shows c) (p : Plane)
    (f : Set Pixel → Set Pixel)
    (active : ∀ positions, d.active.Shows positions → p.Shows (f positions)) :
    (d.setActive p).Shows (c.change f) := by
  have parity : d.secondActive = decide (c.flag.toNat % 2 = 1) := by
    rw [d.secondActive_eq, shows.flag]
  unfold Display.active at active
  unfold setActive Canvas.change
  by_cases odd : c.flag.toNat % 2 = 1
  · simp only [parity, odd, decide_true, ↓reduceIte] at active ⊢
    exact ⟨shows.first, active _ shows.second, shows.screen, shows.flag⟩
  · simp only [parity, odd, decide_false, Bool.false_eq_true, ↓reduceIte] at active ⊢
    exact ⟨active _ shows.first, shows.second, shows.screen, shows.flag⟩

theorem Shows.add {d : Display} {c : Canvas} (shows : d.Shows c) (x y width height : Nat) :
    (d.fill x width (Plane.run y height)).Shows (c.add (pixelBlock x y width height)) :=
  shows.change _ _ fun _ active => active.fill x y width height

theorem Shows.execute {d : Display} {c : Canvas} (shows : d.Shows c) (drawing : Drawing)
    (value : BitVec 32) : (d.execute drawing value).Shows (c.execute drawing value) := by
  unfold Display.execute Canvas.execute
  rw [Packed.unpack_eq]
  cases drawing with
  | clear => exact shows.change _ _ fun _ _ => Plane.shows_blank
  | render => exact ⟨shows.first, shows.second, shows.first.union shows.second, shows.flag⟩
  | pixel =>
    dsimp only
    rw [← pixelBlock_one_one]
    exact shows.add _ _ 1 1
  | horizontal =>
    dsimp only
    rw [← pixelBlock_row]
    exact shows.add _ _ _ 1
  | vertical =>
    dsimp only
    rw [← pixelBlock_column]
    exact shows.add _ _ 1 _
  | rectangle => exact shows.add _ _ _ _
  | setFlag => exact ⟨shows.first, shows.second, shows.screen, rfl⟩
  | save => exact shows
  | load => exact shows

theorem Shows.executeAll {d : Display} {c : Canvas} (shows : d.Shows c)
    (commands : List (Drawing × BitVec 32)) :
    (d.executeAll commands).Shows (c.executeAll commands) := by
  induction commands generalizing d c with
  | nil => exact shows
  | cons command rest ih => exact ih (shows.execute command.1 command.2)

theorem length_rows (d : Display) : d.rows.length = 32 := by
  simp [rows, screenSize]

/-- Rows are listed from the top of the screen, and the characters of a row from the left. -/
theorem rows_getElem? (d : Display) (r : Fin 32) : d.rows[r.val]? =
    some ((List.range 32).map fun x => if d.screen.pixel x (31 - r) then '#' else '.') := by
  unfold rows
  rw [List.getElem?_map, List.getElem?_reverse (by simp [screenSize]), List.length_range]
  rw [List.getElem?_range (by simp [screenSize]; omega)]
  rfl

end Display

/-- Whatever commands a display carries out, its planes are the two sets that are drawn on, bit by
bit, its screen is the set that is seen, outside of which no pixel is set, and its rows of text show
this set from the top. All sets stay on the screen. -/
theorem display_refines_pixel_sets (commands : List (Drawing × BitVec 32)) :
    let d := Display.blank.executeAll commands
    let c := Canvas.blank.executeAll commands
    (∀ x y : Fin 32, d.first[x].getLsbD y = true ↔ (x.val, y.val) ∈ c.first) ∧
    (∀ x y : Fin 32, d.second[x].getLsbD y = true ↔ (x.val, y.val) ∈ c.second) ∧
    (∀ x y, d.screen.pixel x y = true ↔ (x, y) ∈ c.visible) ∧
    (c.first ⊆ onScreen ∧ c.second ⊆ onScreen ∧ c.visible ⊆ onScreen) ∧
    d.flag = c.flag ∧
    d.rows.length = 32 ∧
    ∀ r : Fin 32, ∃ row, d.rows[r.val]? = some row ∧ row.length = 32 ∧
      ∀ x : Fin 32, ∃ character, row[x.val]? = some character ∧
        (character = '#' ↔ (x.val, 31 - r.val) ∈ c.visible) ∧
        (character = '.' ↔ (x.val, 31 - r.val) ∉ c.visible) := by
  intro d c
  have shows : d.Shows c := Display.shows_blank.executeAll commands
  refine ⟨?_, ?_, shows.screen, ⟨shows.first.clipped, shows.second.clipped,
    shows.screen.clipped⟩, shows.flag, d.length_rows, ?_⟩
  · intro x y
    rw [← Plane.pixel_column]
    exact shows.first x y
  · intro x y
    rw [← Plane.pixel_column]
    exact shows.second x y
  · intro r
    refine ⟨_, d.rows_getElem? r, by simp, ?_⟩
    intro x
    refine ⟨if d.screen.pixel x (31 - r) then '#' else '.', by simp, ?_⟩
    rw [← shows.screen x (31 - r)]
    cases d.screen.pixel x (31 - r) <;> decide

end Accumulator
