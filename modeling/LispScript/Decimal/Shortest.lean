/-!
# Shortest decimals

A binary floating-point number stands for every real number that rounds to it. Of the decimals in
that interval the shortest is found on the coarsest grid of powers of ten that meets the interval,
and of the grid's points the one nearest to the number is taken. All comparisons are between
natural numbers.
-/

namespace LispScript

/-- The number `digits · 10 ^ exponent`. -/
structure Decimal where
  digits : Nat
  exponent : Int
deriving Repr, DecidableEq

/-- The positive number `significand · 2 ^ exponent`. -/
structure Binary where
  significand : Nat
  exponent : Int
  /-- Whether the next smaller number lies only half as far away as the next larger one. -/
  narrow : Bool
deriving Repr, DecidableEq

namespace Binary

/-- The number in quarters of its last place. -/
def quarters (b : Binary) : Nat :=
  4 * b.significand

/-- The lower end of the interval that rounds to the number, in quarters of its last place. -/
def lowQuarters (b : Binary) : Nat :=
  b.quarters - if b.narrow then 1 else 2

/-- The upper end of the interval that rounds to the number, in quarters of its last place. -/
def highQuarters (b : Binary) : Nat :=
  b.quarters + 2

/-- The factors by which quarters of the last place and steps of the grid `10 ^ k` are multiplied
to become natural numbers of the same unit. -/
def factors (b : Binary) (k : Int) : Nat × Nat :=
  (Nat.pow 2 (b.exponent - 2).toNat * Nat.pow 10 (-k).toNat,
    Nat.pow 2 (2 - b.exponent).toNat * Nat.pow 10 k.toNat)

/-- The point of the grid `10 ^ k` nearest to the number, among those that round to it. A tie goes
to the even one. -/
def nearest? (b : Binary) (k : Int) : Option Nat :=
  let (quarter, step) := b.factors k
  let value := b.quarters * quarter
  let below := value / step
  let inside (d : Nat) : Bool :=
    if b.significand % 2 = 0 then
      b.lowQuarters * quarter ≤ d * step && d * step ≤ b.highQuarters * quarter
    else b.lowQuarters * quarter < d * step && d * step < b.highQuarters * quarter
  let down := value - below * step
  let up := (below + 1) * step - value
  match 0 < below && inside below, inside (below + 1) with
  | true, true =>
    some (if down < up ∨ (down = up ∧ below % 2 = 0) then below else below + 1)
  | true, false => some below
  | false, true => some (below + 1)
  | false, false => none

/-- The exponents of ten that decimals of floating-point numbers can have, the largest first. -/
def gridExponents : List Int :=
  (List.range 700).map fun (i : Nat) => 320 - (i : Int)

/-- The shortest decimal that rounds to the number. -/
def shortest (b : Binary) : Decimal :=
  (gridExponents.findSome? fun k => (b.nearest? k).map (⟨·, k⟩)).getD ⟨0, 0⟩

end Binary

/-- What a floating-point number is. -/
inductive FloatValue
  | nan
  | infinite (negative : Bool)
  | zero (negative : Bool)
  | finite (negative : Bool) (magnitude : Binary)
deriving Repr, DecidableEq

/-- The number of values of the fraction, the lowest fifty-two bits. -/
def fractionBound : Nat := 0x10000000000000

/-- The number of values of the exponent, the next eleven bits. -/
def exponentBound : Nat := 0x800

/-- What the sixty-four bits of a floating-point number stand for. -/
def FloatValue.ofBits (bits : Nat) : FloatValue :=
  let fraction := bits % fractionBound
  let power := bits / fractionBound % exponentBound
  let negative := bits / fractionBound / exponentBound % 2 == 1
  if power + 1 = exponentBound then
    if fraction = 0 then .infinite negative else .nan
  else if power = 0 then
    if fraction = 0 then .zero negative else .finite negative ⟨fraction, -1074, false⟩
  else
    .finite negative ⟨fractionBound + fraction, (power : Int) - 1075, fraction == 0 && 1 < power⟩

end LispScript
