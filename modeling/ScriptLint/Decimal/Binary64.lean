namespace ScriptLint

/-- A binary floating-point number by its bits: a sign, eleven bits of exponent and fifty-two of
fraction. A finite one is `significand * 2 ^ exponent`, up to its sign. -/
structure Binary64 where
  bits : UInt64
deriving DecidableEq, Inhabited, Repr

namespace Binary64

/-- The bits without the sign. For numbers that are not negative they order as the numbers. -/
def magnitude (x : Binary64) : Nat := x.bits.toNat % Nat.pow 2 63

def isNegative (x : Binary64) : Bool := Nat.pow 2 63 ≤ x.bits.toNat

def exponentField (x : Binary64) : Nat := x.magnitude / Nat.pow 2 52

def fraction (x : Binary64) : Nat := x.magnitude % Nat.pow 2 52

def infinityBits : Nat := 0x7ff * Nat.pow 2 52

def isNaN (x : Binary64) : Bool := infinityBits < x.magnitude

def isInfinite (x : Binary64) : Bool := x.magnitude == infinityBits

def isZero (x : Binary64) : Bool := x.magnitude == 0

def significand (x : Binary64) : Nat :=
  if x.exponentField = 0 then x.fraction else Nat.pow 2 52 + x.fraction

def exponent (x : Binary64) : Int := (max x.exponentField 1 : Nat) - 1075

/-- The next smaller number is nearer than the next larger one. -/
def isSpacingChange (x : Binary64) : Bool := x.fraction == 0 && 1 < x.exponentField

/-- The numbers are equal: the two zeros are, and a number that is undefined equals none. -/
def same (x y : Binary64) : Bool :=
  !x.isNaN && !y.isNaN && (x.bits == y.bits || (x.isZero && y.isZero))

theorem same_comm (x y : Binary64) : x.same y = y.same x := by
  simp only [same, Bool.and_comm, Bool.beq_comm (a := x.bits) (b := y.bits)]

end Binary64

end ScriptLint
