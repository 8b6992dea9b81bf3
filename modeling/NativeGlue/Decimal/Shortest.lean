import NativeGlue.Decimal.Binary64

/-!
# Shortest decimals

The decimal with the fewest digits that rounds to a given binary number, the
nearest of those, and the even one of two equally near.  The candidates with a
given number of digits are the two decimals that enclose the number.
-/

namespace NativeGlue.Decimal

/-- The decimal `digits * 10 ^ exponent`. -/
structure Scientific where
  digits : Nat
  exponent : Int
deriving Repr, DecidableEq

/-- The number of decimal digits. -/
def digitCount (n : Nat) : Nat := (Nat.toDigits 10 n).length

/-- The greatest `e` with `10 ^ e ≤ num / den`, for a positive ratio. -/
def decade (num den : Nat) : Int :=
  if den ≤ num then (digitCount (num / den) : Int) - 1
  else -(digitCount ((den - 1) / num) : Int)

namespace Scientific

/-- The value as a ratio of natural numbers. -/
def ratio (d : Scientific) : Nat × Nat :=
  if d.exponent ≥ 0 then (d.digits * Nat.pow 10 d.exponent.toNat, 1)
  else (d.digits, Nat.pow 10 (-d.exponent).toNat)

/-- The same value without zeros at the end of the digits; `fuel` bounds the
number of zeros removed. -/
def stripZeros : Nat → Scientific → Scientific
  | 0, d => d
  | fuel + 1, d =>
    if d.digits ≠ 0 ∧ d.digits % 10 = 0 then
      stripZeros fuel ⟨d.digits / 10, d.exponent + 1⟩
    else d

end Scientific

namespace Binary64

/-- The ends of the interval of reals that round to `x`, in quarters of its last
place: below, and above.  A number at the foot of its binade is nearer to its
lower neighbour. -/
def interval (x : Binary64) : Nat × Nat :=
  let below :=
    if x.significand = leastFull ∧ x.exponent > minExponent then 1 else 2
  (4 * x.significand - below, 4 * x.significand + 2)

/-- Whether a decimal rounds to `x`.  The ends of the interval do so for an even
significand. -/
def reads (x : Binary64) (d : Scientific) : Bool :=
  let (lo, hi) := x.interval
  let (num, den) := d.ratio
  -- The interval ends are `lo` and `hi` times `2 ^ (x.exponent - 2)`.
  let unit := x.exponent - 2
  let (n, s) :=
    if unit ≥ 0 then (num, den * Nat.pow 2 unit.toNat)
    else (num * Nat.pow 2 (-unit).toNat, den)
  if x.significand % 2 = 0 then lo * s ≤ n && n ≤ hi * s
  else lo * s < n && n < hi * s

/-- The decimals with the last place `10 ^ exponent` that enclose `x`, the
nearer one first; of two equally near the even one. -/
def candidates (x : Binary64) (exponent : Int) : List Scientific :=
  let (a, b) := x.ratio
  let (num, den) :=
    if exponent ≥ 0 then (a, b * Nat.pow 10 exponent.toNat)
    else (a * Nat.pow 10 (-exponent).toNat, b)
  let q := num / den
  let r := num % den
  let low : Scientific := ⟨q, exponent⟩
  let high : Scientific := ⟨q + 1, exponent⟩
  if 2 * r < den ∨ (2 * r = den ∧ q % 2 = 0) then [low, high] else [high, low]

/-- The first decimal that rounds to `x` among those with `count`, `count + 1`,
… digits, `more` being the number of counts still to try. -/
def shortestFrom (x : Binary64) (top : Int) : Nat → Nat → Option Scientific
  | _, 0 => none
  | count, more + 1 =>
    match (x.candidates (top + 1 - count)).find? x.reads with
    | some d => some d
    | none => shortestFrom x top (count + 1) more

/-- The shortest decimal that rounds to a nonzero `x`. -/
def shortest (x : Binary64) : Scientific :=
  let (num, den) := x.ratio
  match shortestFrom x (decade num den) 1 17 with
  | some d => d.stripZeros 400
  | none => ⟨0, 0⟩

end Binary64

/-- How a number is laid out as text. -/
structure Layout where
  /-- The least decimal exponent written without an exponent part. -/
  leastPositional : Int
  /-- The first decimal exponent that is written with an exponent part. -/
  firstScientific : Int
deriving Repr

/-- The text of a decimal with nonzero digits: positional within the limits of
the layout, where a whole number keeps one place, and with a signed exponent
outside. -/
def Layout.write (layout : Layout) (d : Scientific) : String :=
  let ds := Nat.toDigits 10 d.digits
  let e := d.exponent + ds.length - 1
  let chars :=
    if e < layout.leastPositional ∨ layout.firstScientific ≤ e then
      let fraction := if ds.length = 1 then [] else '.' :: ds.drop 1
      let sign := if e < 0 then '-' else '+'
      ds.take 1 ++ fraction ++ ['e', sign] ++ Nat.toDigits 10 e.natAbs
    else if e < 0 then
      ['0', '.'] ++ List.replicate (-e - 1).toNat '0' ++ ds
    else if d.exponent ≥ 0 then
      ds ++ List.replicate d.exponent.toNat '0' ++ ['.', '0']
    else
      ds.take (e.toNat + 1) ++ ['.'] ++ ds.drop (e.toNat + 1)
  String.ofList chars

end NativeGlue.Decimal
