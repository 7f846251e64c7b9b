/-!
# Floating-point numbers as exact fractions

A finite binary floating-point number is `±m · 2^q` with natural `m`.  This
module reads sign, significand and exponent from the bits of both widths, so
that printing and conversion work in exact integer arithmetic.

Main definitions:

- `Binary`: a finite number, with what its neighbours' distances depend on.
- `decodeDouble` and `decodeSingle`: the class of a number of either width.
- `Binary.toInt?`: the exact integer value, when there is one.
-/

namespace TreeSync

/-- A finite floating-point number `±significand · 2^exponent`. -/
structure Binary where
  /-- Whether the sign bit is set. -/
  negative : Bool
  /-- The significand as an integer. -/
  significand : Nat
  /-- The power of two it is scaled by. -/
  exponent : Int
  /-- Whether the next number towards zero is only half as far away as the next
  one from zero: so at a power of two above the smallest exponent. -/
  lowerGapHalved : Bool
  deriving DecidableEq, Repr

/-- The class of a floating-point number. -/
inductive FloatClass where
  /-- Not a number. -/
  | nan
  /-- Plus or minus infinity. -/
  | infinite (negative : Bool)
  /-- A finite number. -/
  | finite (value : Binary)
  deriving DecidableEq, Repr

/-- The number with the given bit fields, where the stored significand has
`bits` bits, the exponent field `field` ranges up to `top`, and the field value
one stands for the exponent `least`. -/
def FloatClass.ofFields (bits top : Nat) (least : Int) (negative : Bool)
    (field stored : Nat) : FloatClass :=
  if field = top then
    if stored = 0 then .infinite negative else .nan
  else if field = 0 then .finite ⟨negative, stored, least, false⟩
  else
    .finite
      ⟨negative, Nat.pow 2 bits + stored, least + (field - 1 : Nat), stored = 0 ∧ 1 < field⟩

/-- The class of a double-precision number. -/
def decodeDouble (x : Float) : FloatClass :=
  let n := x.toBits.toNat
  .ofFields 52 2047 (-1074) (UInt64.size / 2 ≤ n) ((n >>> 52) % 2048) (n % Nat.pow 2 52)

/-- The class of a single-precision number. -/
def decodeSingle (x : Float32) : FloatClass :=
  let n := x.toBits.toNat
  .ofFields 23 255 (-149) (UInt32.size / 2 ≤ n) ((n >>> 23) % 256) (n % Nat.pow 2 23)

namespace Binary

/-- The exact value when it is an integer. -/
def toInt? (b : Binary) : Option Int :=
  let magnitude? : Option Nat :=
    match b.exponent with
    | .ofNat e => some (b.significand * Nat.pow 2 e)
    | .negSucc e =>
        let scale := Nat.pow 2 (e + 1)
        if b.significand % scale = 0 then some (b.significand / scale) else none
  magnitude?.map fun m => if b.negative then -Int.ofNat m else Int.ofNat m

end Binary

end TreeSync
