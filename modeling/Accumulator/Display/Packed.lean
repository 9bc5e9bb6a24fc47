set_option autoImplicit false

/-!
Display coordinates packed into one word: four fields of six bits, from the low end `y`, `x`, `b`
and `a`. A position is `x`, `y`; an extent is `a` or `b`.
-/

namespace Accumulator

structure Packed where
  x : Nat
  y : Nat
  a : Nat
  b : Nat
deriving DecidableEq, Repr

namespace Packed

def unpack (word : BitVec 32) : Packed where
  x := (word.extractLsb' 6 6).toNat
  y := (word.extractLsb' 0 6).toNat
  a := (word.extractLsb' 18 6).toNat
  b := (word.extractLsb' 12 6).toNat

/-- The word that holds the low six bits of each field. -/
def pack (p : Packed) : BitVec 32 :=
  (0#8 ++ BitVec.ofNat 6 p.a ++ BitVec.ofNat 6 p.b ++ BitVec.ofNat 6 p.x ++ BitVec.ofNat 6 p.y)

end Packed

end Accumulator
