import TreeSync.Number.Integer

/-!
# Floating-point literals

Reading a floating-point literal: an optional sign, then an infinity or NaN in
any ASCII case, or digits with at most one point among or around them and an
optional exponent.  The value is the nearest double-precision number.

Main definitions:

- `FloatLiteral` and `FloatLiteral.scan?`: the grammar without the sign.
- `FloatLiteral.read?`: the value of a literal.
-/

namespace TreeSync

/-- A floating-point literal without its sign. -/
inductive FloatLiteral where
  /-- Infinity. -/
  | infinity
  /-- Not a number. -/
  | nan
  /-- The number `digits · 10^exponent`. -/
  | number (digits : Nat) (exponent : Int)
  deriving DecidableEq, Repr

namespace FloatLiteral

/-- The digits at the start of a text and what follows them. -/
def spanDigits : List Char → List Char × List Char
  | [] => ([], [])
  | c :: rest =>
      if (Integer.digit? c).isSome then
        let (digits, after) := spanDigits rest
        (c :: digits, after)
      else ([], c :: rest)

/-- The value of a text of digits. -/
def digitsValue (digits : List Char) : Nat :=
  digits.foldl (fun n c => n * 10 + (Integer.digit? c).getD 0) 0

/-- The exponent that a whole text spells: nothing, or a marker, an optional
sign and one or more digits. -/
def exponent? : List Char → Option Int
  | [] => some 0
  | marker :: rest =>
      if marker = 'e' ∨ marker = 'E' then
        let (negative, digits) :=
          match rest with
          | '-' :: ds => (true, ds)
          | '+' :: ds => (false, ds)
          | ds => (false, ds)
        if digits.isEmpty ∨ digits.any (fun c => (Integer.digit? c).isNone) then none
        else
          let e := Int.ofNat (digitsValue digits)
          some (if negative then -e else e)
      else none

/-- The unsigned literal that a whole text spells. -/
def scan? (text : List Char) : Option FloatLiteral :=
  let lower := String.ofList (text.map Char.toLower)
  if lower = "inf" ∨ lower = "infinity" then some infinity
  else if lower = "nan" then some nan
  else
    let (whole, rest) := spanDigits text
    let (fraction, rest) :=
      match rest with
      | '.' :: rest => spanDigits rest
      | rest => ([], rest)
    if whole.isEmpty ∧ fraction.isEmpty then none
    else (exponent? rest).map fun e =>
      number (digitsValue (whole ++ fraction)) (e - fraction.length)

/-- The double-precision number nearest to `digits · 10^exponent`.  Magnitudes
beyond the range are settled without forming the power. -/
def nearest (digits : Nat) (exponent : Int) : Float :=
  let magnitude := exponent + (Nat.toDigits 10 digits).length
  if digits = 0 ∨ magnitude < -400 then 0.0
  else if 400 < magnitude then 1.0 / 0.0
  else Float.ofScientific digits (exponent < 0) exponent.natAbs

/-- The value of an unsigned literal. -/
def value : FloatLiteral → Float
  | infinity => 1.0 / 0.0
  | nan => 0.0 / 0.0
  | number digits exponent => nearest digits exponent

/-- The value of a floating-point literal, if the text is one. -/
def read? (text : List Char) : Option Float :=
  match text with
  | '-' :: rest => (scan? rest).map fun l => -l.value
  | '+' :: rest => (scan? rest).map value
  | rest => (scan? rest).map value

end FloatLiteral

end TreeSync
