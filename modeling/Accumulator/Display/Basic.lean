import Accumulator.Display.Packed
import Accumulator.Instruction.Operation

set_option autoImplicit false

/-!
The display: two planes to draw on and the screen that shows both. A plane has 32 columns of 32
bits, and bit `y` of a column is the pixel in row `y`, counted from the bottom. What lies outside
is clipped.
-/

namespace Accumulator

/-- The number of columns, and of rows. -/
def screenSize : Nat := 32

abbrev Plane := Vector (BitVec 32) 32

namespace Plane

def blank : Plane := Vector.replicate 32 0

/-- The bits from `start` on, `length` of them, as far as they lie in a column. -/
def run (start length : Nat) : BitVec 32 :=
  (BitVec.allOnes 32 <<< start) &&& ~~~(BitVec.allOnes 32 <<< (start + length))

/-- Sets the bits of a mask in the columns from `x` on, `width` of them. -/
def fill (p : Plane) (x width : Nat) (mask : BitVec 32) : Plane :=
  p.mapIdx fun i column => if x ≤ i ∧ i < x + width then column ||| mask else column

/-- The pixels that are set in one plane or the other. -/
def union (p q : Plane) : Plane := Vector.zipWith (· ||| ·) p q

def pixel (p : Plane) (x y : Nat) : Bool :=
  p[x]?.any fun column => column.getLsbD y

end Plane

/-- The low bit of the flag chooses the active plane, the one that is drawn on. -/
structure Display where
  first : Plane
  second : Plane
  screen : Plane
  flag : BitVec 32
deriving DecidableEq, Repr

namespace Display

def blank : Display := ⟨Plane.blank, Plane.blank, Plane.blank, 0⟩

/-- Whether the second plane is the active one. -/
def secondActive (d : Display) : Bool := d.flag.getLsbD 0

def active (d : Display) : Plane := if d.secondActive then d.second else d.first

def setActive (d : Display) (p : Plane) : Display :=
  if d.secondActive then { d with second := p } else { d with first := p }

def fill (d : Display) (x width : Nat) (mask : BitVec 32) : Display :=
  d.setActive (d.active.fill x width mask)

/-- Carries out a command. Saving and loading a plane are the machine's work and leave the display
as it is. -/
def execute (d : Display) (drawing : Drawing) (value : BitVec 32) : Display :=
  let p := Packed.unpack value
  match drawing with
  | .clear => d.setActive Plane.blank
  | .render => { d with screen := d.first.union d.second }
  | .pixel => d.fill p.x 1 (Plane.run p.y 1)
  | .horizontal => d.fill p.x p.a (Plane.run p.y 1)
  | .vertical => d.fill p.x 1 (Plane.run p.y p.a)
  | .rectangle => d.fill p.x p.a (Plane.run p.y p.b)
  | .setFlag => { d with flag := value }
  | .save | .load => d

/-- The screen as rows of text, the top row first. -/
def rows (d : Display) : List (List Char) :=
  (List.range screenSize).reverse.map fun y =>
    (List.range screenSize).map fun x => if d.screen.pixel x y then '#' else '.'

end Display

end Accumulator
