import TreeSync.Number.Binary

/-!
# Shortest decimal digits

The fewest decimal digits that read back to a given floating-point number: of
all decimals with that many digits the nearest one to the number.  Everything
is exact integer arithmetic on the interval of reals that round to the number.

Main definitions:

- `Decimal`: digits and exponent.
- `Binary.shortest`: the shortest digits of a positive number.
-/

namespace TreeSync

/-- Which of two equally near decimals is taken. -/
inductive TieRule where
  /-- The one farther from zero. -/
  | up
  /-- The one with the even last digit. -/
  | even
  deriving DecidableEq, Repr

/-- The decimal number `digits · 10^exponent`. -/
structure Decimal where
  /-- The digits as an integer. -/
  digits : Nat
  /-- The power of ten they are scaled by. -/
  exponent : Int
  deriving DecidableEq, Repr

namespace Decimal

/-- The same number without trailing zero digits; `fuel` bounds their count. -/
def trim (fuel : Nat) (d : Decimal) : Decimal :=
  match fuel with
  | 0 => d
  | fuel + 1 =>
      if d.digits ≠ 0 ∧ d.digits % 10 = 0 then trim fuel ⟨d.digits / 10, d.exponent + 1⟩ else d

/-- The decimal digits, most significant first. -/
def digitChars (d : Decimal) : List Char :=
  Nat.toDigits 10 d.digits

/-- The exponent of the first digit. -/
def leadingExponent (d : Decimal) : Int :=
  d.exponent + d.digitChars.length - 1

end Decimal

/-- `base` to an integer power, as numerator and denominator. -/
def powerFraction (base : Nat) : Int → Nat × Nat
  | .ofNat e => (Nat.pow base e, 1)
  | .negSucc e => (1, Nat.pow base (e + 1))

namespace Binary

/-- The largest `k` with `10^k ≤ b`, for a positive number. -/
def decimalExponent (b : Binary) : Int :=
  let (tn, td) := powerFraction 2 b.exponent
  let reaches (k : Int) : Bool :=
    let (n, d) := powerFraction 10 k
    n * td ≤ b.significand * tn * d
  let guess := ((b.significand.log2 : Int) + b.exponent) * 30103 / 100000
  if reaches (guess + 1) then guess + 1
  else if reaches guess then guess
  else guess - 1

/-- The nearest decimal with exponent `e` among those that round to `b`, if
there is one. -/
def onGrid? (tie : TieRule) (b : Binary) (e : Int) : Option Decimal :=
  let (tn, td) := powerFraction 2 (b.exponent - 2)
  let (gn, gd) := powerFraction 10 (-e)
  let unit := tn * gn
  let den := td * gd
  let value := 4 * b.significand * unit
  let low := (4 * b.significand - (if b.lowerGapHalved then 1 else 2)) * unit
  let high := (4 * b.significand + 2) * unit
  let closed := b.significand % 2 = 0
  let hit (d : Nat) : Bool :=
    if closed then low ≤ d * den ∧ d * den ≤ high else low < d * den ∧ d * den < high
  let d := value / den
  let below := value - d * den
  let above := (d + 1) * den - value
  match hit d && 0 < d, hit (d + 1) with
  | true, true =>
      if below < above then some ⟨d, e⟩
      else if above < below then some ⟨d + 1, e⟩
      else match tie with
        | .up => some ⟨d + 1, e⟩
        | .even => some ⟨if d % 2 = 0 then d else d + 1, e⟩
  | true, false => some ⟨d, e⟩
  | false, true => some ⟨d + 1, e⟩
  | false, false => none

/-- The first hit on the grids of exponents `e`, `e - 1`, …; after `fuel` grids
the number itself, rounded down to the last of them. -/
def firstGrid (tie : TieRule) (b : Binary) : Nat → Int → Decimal
  | 0, e =>
      let (tn, td) := powerFraction 2 b.exponent
      let (gn, gd) := powerFraction 10 (-e)
      ⟨b.significand * tn * gn / (td * gd), e⟩
  | fuel + 1, e =>
      match b.onGrid? tie e with
      | some d => d
      | none => firstGrid tie b fuel (e - 1)

/-- The shortest decimal that reads back to a positive number.  Seventeen digits
always do. -/
def shortest (tie : TieRule) (b : Binary) : Decimal :=
  (firstGrid tie b 17 b.decimalExponent).trim 20

end Binary

end TreeSync
