/-!
# Shortest decimals

A binary floating point number is rounded to from a whole interval of reals.  Its
shortest decimal is the point of the coarsest decimal grid that has a point in this
interval; of several such points it is the nearest to the number itself, and of two
that are equally near the even one.  All comparisons are exact.
-/

namespace PredicateLanguage.Decimal

/-- The number `mantissa * 2 ^ exponent`, which floating point rounds to from up to half
a unit of the mantissa above and, if `lowest` is not set, below it.  Under the lowest
mantissa of its exponent the numbers lie twice as close. -/
structure Binary where
  mantissa : Nat
  exponent : Int
  lowest : Bool

/-- The lowest mantissa of a double: its fraction takes 52 bits below it. -/
def leadingBit : Nat := Nat.pow 2 52

/-- The number of scales of a double. -/
def scaleCount : Nat := Nat.pow 2 11

/-- Splits the bits of a finite double into its sign and its magnitude. -/
def Binary.ofBits (bits : Nat) : Bool × Binary :=
  let fraction : Nat := bits % leadingBit
  let scale : Nat := bits / leadingBit % scaleCount
  (bits / leadingBit / scaleCount = 1,
    if scale = 0 then
      ⟨fraction, -1074, false⟩
    else
      ⟨leadingBit + fraction, (scale : Int) - 1075, fraction = 0 && scale != 1⟩)

/-- The number `digits * 10 ^ exponent`. -/
structure Scaled where
  digits : Nat
  exponent : Int
  deriving DecidableEq

/-- A number that may be negative as a factor above and one below the line of a fraction
with the given base. -/
def powerParts (base : Nat) (exponent : Int) : Nat × Nat :=
  (Nat.pow base exponent.toNat, Nat.pow base (-exponent).toNat)

/-- The point of the grid of multiples of `10 ^ exponent` that is nearest to a number and
rounds to it, if one does. -/
def Binary.onGrid? (b : Binary) (exponent : Int) : Option Scaled :=
  let (twoUp, twoDown) := powerParts 2 (b.exponent - 2)
  let (tenUp, tenDown) := powerParts 10 exponent
  let unit := tenUp * twoDown
  let scale := twoUp * tenDown
  let value := 4 * b.mantissa * scale
  let low := (4 * b.mantissa - if b.lowest then 1 else 2) * scale
  let high := (4 * b.mantissa + 2) * scale
  let inside (n : Nat) : Bool :=
    if b.mantissa % 2 = 0 then low ≤ n * unit && n * unit ≤ high
    else low < n * unit && n * unit < high
  let below := value / unit
  let above := below + 1
  let nearest : Nat :=
    if above * unit - value < value - below * unit then above
    else if value - below * unit < above * unit - value then below
    else if below % 2 = 0 then below
    else above
  let other := below + above - nearest
  if inside nearest then some ⟨nearest, exponent⟩
  else if inside other then some ⟨other, exponent⟩
  else none

/-- The largest and the number of the exponents of ten whose grids are tried. -/
def gridRange : Int × Nat :=
  (308, 633)

/-- The shortest decimal of a positive number. -/
def Binary.shortest (b : Binary) : Scaled :=
  let tried := (List.range gridRange.2).findSome? fun (i : Nat) => b.onGrid? (gridRange.1 - i)
  tried.getD ⟨0, 0⟩

end PredicateLanguage.Decimal
