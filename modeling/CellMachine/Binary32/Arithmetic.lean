import CellMachine.Binary32

/-!
# Binary32 arithmetic

Comparison, the four operations and the remainder, each computed exactly on the values and rounded
once. Powers alone are left to the platform, which does not promise a correctly rounded result.
-/

namespace CellMachine.Binary32

/-! ## Order -/

/-- The place of a number that is no NaN on the line; the two zeros share one. -/
def place (x : Binary32) : Int :=
  let magnitude : Nat := (x.bits &&& 0x7FFFFFFF).toNat
  if x.negative then -(magnitude : Int) else magnitude

/-- How two numbers compare; a NaN compares with nothing. -/
def compare? (x y : Binary32) : Option Ordering :=
  if x.isNaN || y.isNaN then none else some (compare x.place y.place)

/-! ## Arithmetic -/

/-- The signed mantissa of a finite number counted in units of `2 ^ e`, for `e` at most its
scale. -/
def inUnits (x : Binary32) (e : Int) : Int :=
  let m : Int := x.mantissa * Int.pow 2 (x.scale - e).toNat
  if x.negative then -m else m

def add (x y : Binary32) : Binary32 :=
  if x.isNaN || y.isNaN then nan
  else if x.isInfinite then
    if y.isInfinite && x.negative != y.negative then nan else x
  else if y.isInfinite then y
  else
    let e := min x.scale y.scale
    let s := x.inUnits e + y.inUnits e
    if s = 0 then zero (x.negative && y.negative) else ofDyadic (s < 0) s.natAbs e

def sub (x y : Binary32) : Binary32 := if y.isNaN then nan else x.add y.neg

def mul (x y : Binary32) : Binary32 :=
  let negative := x.negative != y.negative
  if x.isNaN || y.isNaN then nan
  else if x.isInfinite || y.isInfinite then
    if x.isZero || y.isZero then nan else infinity negative
  else ofDyadic negative (x.mantissa * y.mantissa) (x.scale + y.scale)

def div (x y : Binary32) : Binary32 :=
  let negative := x.negative != y.negative
  if x.isNaN || y.isNaN then nan
  else if x.isInfinite then
    if y.isInfinite then nan else infinity negative
  else if y.isInfinite then zero negative
  else if y.isZero then
    if x.isZero then nan else infinity negative
  else
    let e := x.scale - y.scale
    if 0 ≤ e then ofRatio negative (x.mantissa * Nat.pow 2 e.toNat) y.mantissa
    else ofRatio negative x.mantissa (y.mantissa * Nat.pow 2 (-e).toNat)

/-- The remainder of the division truncated toward zero; it has the sign of `x` and is exact. -/
def rem (x y : Binary32) : Binary32 :=
  if x.isNaN || y.isNaN || x.isInfinite || y.isZero then nan
  else if y.isInfinite then x
  else
    let e := min x.scale y.scale
    ofDyadic x.negative ((x.inUnits e).natAbs % (y.inUnits e).natAbs) e

/-- The remainder of the floored division: other than zero, it has the sign of `y`. -/
def floorMod (x y : Binary32) : Binary32 :=
  let r := x.rem y
  let below (z : Binary32) : Bool := z.compare? (zero false) = some .lt
  if !r.isZero && below r != below y then r.add y else r

/-- The power, as the platform computes it. -/
def pow (x y : Binary32) : Binary32 :=
  ⟨((Float32.ofBits x.bits).pow (Float32.ofBits y.bits)).toBits⟩

/-! ## Integers -/

def truncate? (x : Binary32) : Option Int :=
  if x.isFinite then
    let m : Nat :=
      if 0 ≤ x.scale then x.mantissa * Nat.pow 2 x.scale.toNat
      else x.mantissa / Nat.pow 2 (-x.scale).toNat
    some (if x.negative then -(m : Int) else m)
  else none

end CellMachine.Binary32
