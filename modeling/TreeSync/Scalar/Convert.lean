import TreeSync.Number.FloatLiteral
import TreeSync.Scalar.Basic
import TreeSync.Scalar.Error

/-!
# Converting scalars

Every scalar can be asked for a value of any kind.  Text is read as a literal,
and an empty text stands for the zero value.  Numbers become truth values by
being nonzero, truth values become the numbers one and zero, and a number must
fit the range of its destination; a floating-point number becomes an integer
only when it is one.

Main definitions:

- `Scalar.toBool`, `toInteger`, `toFloat`, `toChar`, `toText`: one function for
  each destination.
- `Scalar.convert` and `ScalarKind.read`.
-/

namespace TreeSync

namespace IntKind

/-- The number as a value of the kind.  On overflow the error shows it as
`shown`. -/
def fit (k : IntKind) (n : Int) (shown : String) :
    Except ConversionError { n : Int // k.Contains n } :=
  if h : k.Contains n then .ok ⟨n, h⟩ else .error (.overflow shown k.name)

/-- The value of the kind that a literal spells.  The literal is read at the
widest width of the kind's signedness first. -/
def read (k : IntKind) (literal : String) : Except ConversionError { n : Int // k.Contains n } :=
  if literal.isEmpty then .ok ⟨0, k.contains_zero⟩
  else
    match Integer.read k.widest.lo k.widest.hi literal.toList with
    | .ok n => k.fit n literal
    | .error fault =>
        if fault.isOverflow then .error (.overflow literal k.name)
        else .error (.mismatch literal k.name (.badInteger fault))

end IntKind

namespace Scalar

/-- Whether two texts are equal but for the case of ASCII letters. -/
def sameLetters (a b : String) : Bool :=
  a.toList.map Char.toLower == b.toList.map Char.toLower

/-- The failure to convert between kinds that no rule connects. -/
def incompatible (s : Scalar) (target : String) : ConversionError :=
  .mismatch s.literal target .incompatibleKinds

/-- The scalar as a truth value. -/
def toBool : Scalar → Except ConversionError Bool
  | text s =>
      if s.isEmpty then .ok false
      else if sameLetters s "true" then .ok true
      else if sameLetters s "false" then .ok false
      else .error (.mismatch s "bool" .expectedBool)
  | bool b => .ok b
  | int v => .ok (v != 0)
  | uint v => .ok (v != 0)
  | float v => .ok (v != 0.0)
  | char c => .error (incompatible (.char c) "bool")

/-- The scalar as a value of an integer kind. -/
def toInteger (k : IntKind) : Scalar → Except ConversionError { n : Int // k.Contains n }
  | text s => k.read s
  | bool b => k.fit (if b then 1 else 0) (if b then "1" else "0")
  | int v => k.fit v.toInt (Integer.text v.toInt)
  | uint v => k.fit v.toNat (Integer.text v.toNat)
  | float v =>
      match decodeDouble v with
      | .finite b =>
          match b.toInt? with
          | some n => k.fit n (doubleText v)
          | none => .error (.mismatch (doubleText v) k.name .notIntegral)
      | _ => .error (.mismatch (doubleText v) k.name .notIntegral)
  | char c => k.fit c.toNat (String.ofList [c])

/-- The greatest finite single-precision number. -/
def singleMax : Float := 3.4028234663852886e38

/-- The number, when its magnitude does not exceed the range of the destination,
which is single precision if `single` holds. -/
def checkFloat (single : Bool) (v : Float) (shown target : String) : Except ConversionError Float :=
  if single && v.isFinite && singleMax < v.abs then .error (.overflow shown target) else .ok v

/-- Whether a floating-point literal spells an infinity rather than a number
too large. -/
def spellsInfinity : List Char → Bool
  | [] => false
  | c :: rest =>
      ((c :: rest).take 3).map Char.toLower == ['i', 'n', 'f'] || spellsInfinity rest

/-- The scalar as a floating-point number, of single precision if `single`
holds.  The result is not rounded to single precision. -/
def toFloat (single : Bool) (s : Scalar) : Except ConversionError Float :=
  let target := if single then "f32" else "f64"
  match s with
  | text s =>
      if s.isEmpty then .ok 0.0
      else
        match FloatLiteral.read? s.toList with
        | none => .error (.mismatch s target .badFloat)
        | some v =>
            if v.isInf && !spellsInfinity s.toList then .error (.overflow s target)
            else checkFloat single v s target
  | bool b => checkFloat single (if b then 1.0 else 0.0) (if b then "1" else "0") target
  | int v => checkFloat single (Float.ofInt v.toInt) (Integer.text v.toInt) target
  | uint v => checkFloat single (Float.ofNat v.toNat) (Integer.text v.toNat) target
  | float v => checkFloat single v (doubleText v) target
  | char c => .error (incompatible (.char c) target)

/-- The character with a code point. -/
def charOfCode (n : Int) : Except ConversionError Char :=
  if 0 ≤ n ∧ n.toNat.isValidChar then .ok (Char.ofNat n.toNat)
  else .error (.mismatch (Integer.text n) "char" .notCodePoint)

/-- The scalar as a character. -/
def toChar : Scalar → Except ConversionError Char
  | text s =>
      match s.toList with
      | [] => .ok '\x00'
      | [c] => .ok c
      | _ => .error (.mismatch s "char" .expectedCharacter)
  | char c => .ok c
  | int v => charOfCode v.toInt
  | uint v => charOfCode v.toNat
  | bool b => .error (incompatible (.bool b) "char")
  | float v => .error (incompatible (.float v) "char")

/-- The scalar converted to a kind. -/
def convert (s : Scalar) : ScalarKind → Except ConversionError Scalar
  | .bool => bool <$> s.toBool
  | .int k => k.toScalar <$> s.toInteger k
  | .f32 => float <$> s.toFloat true
  | .f64 => float <$> s.toFloat false
  | .char => char <$> s.toChar
  | .string => .ok (text s.literal)

end Scalar

namespace ScalarKind

/-- The scalar of the kind that a literal spells. -/
def read (kind : ScalarKind) (literal : String) : Except ConversionError Scalar :=
  (Scalar.text literal).convert kind

end ScalarKind

end TreeSync
