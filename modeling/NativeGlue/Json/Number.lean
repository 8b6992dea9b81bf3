import NativeGlue.Json.Scan

/-!
# The value of a numeral

A numeral without point and exponent is an integer if it fits 64 bits.  Any
other is a floating point number: as many of its digits as fit 64 bits are taken
as a whole number, and one rounded multiplication or division by a power of ten
places the point.  A magnitude beyond the finite numbers is out of range.
-/

namespace NativeGlue.Json

open Decimal (Binary64)

/-- The greatest unsigned 64-bit number. -/
def maxWord : Nat := 0xFFFFFFFFFFFFFFFF

/-- The magnitude of the least signed 64-bit number. -/
def maxNegative : Nat := 0x8000000000000000

/-- Appends digits to a number while the result fits 64 bits: the number, and
the digits that did not fit. -/
def absorb (n : Nat) : List Char → Nat × List Char
  | [] => (n, [])
  | d :: ds =>
    let m := n * 10 + digitValue d
    if m ≤ maxWord then absorb m ds else (n, d :: ds)

/-- The number that digits spell. -/
def natOfDigits (ds : List Char) : Nat :=
  ds.foldl (fun n d => n * 10 + digitValue d) 0

/-- The greatest power of ten by which a number is scaled in one step. -/
def maxPower : Nat := 308

/-- `x` times a power of ten; none if the product is not finite. -/
def scaleUp (x : Binary64) (power : Nat) : Option Binary64 :=
  if power ≤ maxPower then do
    let p ← Binary64.ofNat (Nat.pow 10 power)
    x.mul p
  else if x.isZero then some x else none

/-- `x` divided by a power of ten, by steps of at most `10 ^ 308`. -/
def scaleDown (x : Binary64) (power : Nat) : Option Binary64 :=
  if power ≤ maxPower then do
    let p ← Binary64.ofNat (Nat.pow 10 power)
    x.div p
  else if x.isZero then some x
  else do
    let p ← Binary64.ofNat (Nat.pow 10 maxPower)
    let y ← x.div p
    scaleDown y (power - maxPower)
termination_by power
decreasing_by
  have : 0 < maxPower := by decide
  omega

/-- The rounded value of `n * 10 ^ power`; none if it is not finite. -/
def floatOfParts (n : Nat) (power : Int) : Option Binary64 := do
  let x ← Binary64.ofNat n
  if power ≥ 0 then scaleUp x power.toNat else scaleDown x (-power).toNat

namespace Numeral

/-- The digits taken as a whole number, and the power of ten that places the
point. -/
def parts (n : Numeral) : Nat × Int :=
  let (whole, left) := absorb 0 n.whole
  let fraction := n.fraction.getD []
  let (m, cut) := absorb whole fraction
  let shift : Int := left.length - (fraction.length - cut.length : Nat)
  match n.exponent with
  | none => (m, shift)
  | some (true, ds) => (m, shift - natOfDigits ds)
  | some (false, ds) => (m, shift + natOfDigits ds)

/-- The integer that a numeral spells, if it has no point and no exponent, fits
64 bits, and is not a negative zero. -/
def integer? (n : Numeral) : Option Int :=
  match n.fraction, n.exponent with
  | none, none =>
    let m := natOfDigits n.whole
    if n.negative then if 0 < m ∧ m ≤ maxNegative then some (-m) else none
    else if m ≤ maxWord then some m else none
  | _, _ => none

/-- What a numeral is found to be. -/
def found (n : Numeral) : Except Fault Found :=
  match n.integer? with
  | some value => .ok (.integer value)
  | none =>
    let (m, power) := n.parts
    match floatOfParts m power with
    | some x => .ok (.floating n.negative x)
    | none => .error .numberOutOfRange

end Numeral

/-- What the number at the front of a text is found to be. -/
def foundNumber (cs : List Char) : Except Fault Found :=
  match numeral cs with
  | .error [] => .error .endInValue
  | .error _ => .error .invalidNumber
  | .ok (n, _) => n.found

end NativeGlue.Json
