import TreeSync.Number.Shortest

/-!
# Layouts of floating-point text

Two ways of writing the shortest digits of a number.  The plain layout never
uses an exponent.  The data layout, used in data files, keeps a fraction on
every positional number and switches to an exponent for very large and very
small ones.
-/

namespace TreeSync

/-- How a finite number is laid out. -/
structure FloatLayout where
  /-- Which of two equally near shortest decimals is written. -/
  tie : TieRule
  /-- Whether an integral number keeps the fraction `.0`. -/
  keepsFraction : Bool
  /-- Least and greatest exponent of the first digit written positionally;
  without bounds every number is. -/
  positional : Option (Int × Int)

namespace FloatLayout

/-- Positional digits without exponent and without an empty fraction; a tie goes
away from zero. -/
def plain : FloatLayout := ⟨.up, false, none⟩

/-- Positional from `10^-5` to below `10^16`, always with a fraction, else with
an exponent whose sign is always written; a tie goes to the even digit. -/
def data : FloatLayout := ⟨.even, true, some (-5, 15)⟩

/-- The digits of `d` written positionally. -/
def positionalText (layout : FloatLayout) (d : Decimal) : String :=
  let digits := d.digitChars
  let fraction := if layout.keepsFraction then ".0" else ""
  match d.exponent with
  | .ofNat e => String.ofList (digits ++ List.replicate e '0') ++ fraction
  | .negSucc e =>
      let places := e + 1
      if places < digits.length then
        String.ofList (digits.take (digits.length - places)) ++ "." ++
          String.ofList (digits.drop (digits.length - places))
      else "0." ++ String.ofList (List.replicate (places - digits.length) '0' ++ digits)

/-- The digits of `d` with one digit in front of the point and an exponent. -/
def scientificText (d : Decimal) : String :=
  let e := d.leadingExponent
  let head := d.digitChars.take 1
  let tail := d.digitChars.drop 1
  String.ofList head ++ (if tail.isEmpty then "" else "." ++ String.ofList tail) ++
    (if e < 0 then "e-" else "e+") ++ String.ofList (Nat.toDigits 10 e.natAbs)

/-- A finite number as text. -/
def text (layout : FloatLayout) (b : Binary) : String :=
  (if b.negative then "-" else "") ++
    if b.significand = 0 then (if layout.keepsFraction then "0.0" else "0")
    else
      let d := b.shortest layout.tie
      match layout.positional with
      | some (least, greatest) =>
          if least ≤ d.leadingExponent ∧ d.leadingExponent ≤ greatest then
            layout.positionalText d
          else scientificText d
      | none => layout.positionalText d

/-- A number of any class in the plain layout. -/
def plainText : FloatClass → String
  | .nan => "NaN"
  | .infinite negative => if negative then "-inf" else "inf"
  | .finite b => plain.text b

end FloatLayout

/-- The plain text of a double-precision number. -/
def doubleText (x : Float) : String :=
  FloatLayout.plainText (decodeDouble x)

/-- The plain text of a single-precision number. -/
def singleText (x : Float32) : String :=
  FloatLayout.plainText (decodeSingle x)

end TreeSync
