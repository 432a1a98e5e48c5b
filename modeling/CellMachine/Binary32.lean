/-!
# Binary32 numbers

A float is held as its 32-bit pattern, so that moving one keeps every bit, also those of a NaN.
The value of a finite pattern is `mantissa * 2 ^ scale`, and `ofRatio` is the one place where a
rational number is rounded, to nearest with ties to the even neighbour.
-/

namespace CellMachine

/-- A binary32 number: one sign bit, eight exponent bits and 23 fraction bits. -/
structure Binary32 where
  bits : UInt32
  deriving DecidableEq, Inhabited

namespace Binary32

def negative (x : Binary32) : Bool := x.bits ≥ 0x80000000

def exponent (x : Binary32) : Nat := x.bits.toNat / 0x800000 % 0x100

def fraction (x : Binary32) : Nat := x.bits.toNat % 0x800000

def isNaN (x : Binary32) : Bool := x.exponent = 255 && x.fraction ≠ 0

def isInfinite (x : Binary32) : Bool := x.exponent = 255 && x.fraction = 0

def isFinite (x : Binary32) : Bool := x.exponent ≠ 255

def mantissa (x : Binary32) : Nat :=
  if x.exponent = 0 then x.fraction else 0x800000 + x.fraction

def scale (x : Binary32) : Int :=
  if x.exponent = 0 then -149 else (x.exponent : Int) - 150

def isZero (x : Binary32) : Bool := x.bits &&& 0x7FFFFFFF = 0

def withSign (negative : Bool) (magnitude : UInt32) : Binary32 :=
  ⟨if negative then magnitude ||| 0x80000000 else magnitude⟩

def nan : Binary32 := ⟨0x7FC00000⟩

def infinity (negative : Bool) : Binary32 := withSign negative 0x7F800000

def zero (negative : Bool) : Binary32 := withSign negative 0

def neg (x : Binary32) : Binary32 := ⟨x.bits ^^^ 0x80000000⟩

def roundDiv (num den : Nat) : Nat :=
  let q := num / den
  let r := num % den
  if 2 * r < den then q
  else if den < 2 * r then q + 1
  else q + q % 2

/-- The power of two counted by the mantissa of a number near `num / den`: the one that leaves 24
bits, or the least there is. -/
def unitOf (num den : Nat) : Int :=
  let l : Int := (num.log2 : Int) - den.log2
  let below : Bool :=
    if 0 ≤ l then num < den * Nat.pow 2 l.toNat else num * Nat.pow 2 (-l).toNat < den
  max ((if below then l - 1 else l) - 23) (-149)

/-- The number nearest to `num / den`; beyond the largest finite number it is an infinity. -/
def ofRatio (negative : Bool) (num den : Nat) : Binary32 :=
  if num = 0 then zero negative
  else
    let e := unitOf num den
    let q :=
      if 0 ≤ e then roundDiv num (den * Nat.pow 2 e.toNat)
      else roundDiv (num * Nat.pow 2 (-e).toNat) den
    -- The hidden bit of a normal mantissa carries into the exponent field.
    let pattern := (e + 149).toNat * 0x800000 + q
    withSign negative (UInt32.ofNat (min pattern 0x7F800000))

def ofDyadic (negative : Bool) (m : Nat) (e : Int) : Binary32 :=
  if 0 ≤ e then ofRatio negative (m * Nat.pow 2 e.toNat) 1
  else ofRatio negative m (Nat.pow 2 (-e).toNat)

def ofInt (n : Int) : Binary32 := ofRatio (n < 0) n.natAbs 1

end Binary32

end CellMachine
