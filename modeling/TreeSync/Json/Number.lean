import TreeSync.Json.Basic
import TreeSync.Number.Integer

/-!
# Reading JSON numbers

A number is read into a 64-bit significand and a decimal exponent; digits that
no longer fit the significand are dropped.  A number without fraction or
exponent stays an integer where it fits 64 bits.  Otherwise the value is the
significand scaled by a power of ten in floating-point arithmetic, so it may
miss the nearest number in the last place.
-/

namespace TreeSync

namespace JsonNumber

/-- The greatest significand. -/
def maxSignificand : Nat := UInt64.size - 1

/-- The significand after the digits of an integer part, the number of digits
dropped, and the text behind them. -/
def takeInteger (significand : Nat) : List Char → Nat × Nat × List Char
  | [] => (significand, 0, [])
  | c :: rest =>
      match Integer.digit? c with
      | none => (significand, 0, c :: rest)
      | some d =>
          if significand * 10 + d ≤ maxSignificand then takeInteger (significand * 10 + d) rest
          else
            let digits := rest.takeWhile fun c => (Integer.digit? c).isSome
            (significand, digits.length + 1, rest.drop digits.length)

/-- The significand after the digits of a fraction, the number of digits used,
and the text behind them. -/
def takeFraction (significand : Nat) : List Char → Nat × Nat × List Char
  | [] => (significand, 0, [])
  | c :: rest =>
      match Integer.digit? c with
      | none => (significand, 0, c :: rest)
      | some d =>
          if significand * 10 + d ≤ maxSignificand then
            let (s, used, behind) := takeFraction (significand * 10 + d) rest
            (s, used + 1, behind)
          else (significand, 0, rest.dropWhile fun c => (Integer.digit? c).isSome)

/-- Divide by `10^308` until the exponent is in range or nothing is left; a
64-bit significand is gone after three divisions. -/
def scaleDown : Nat → Float → Int → Float
  | 0, f, _ => f
  | fuel + 1, f, e =>
      if -308 ≤ e then f / Float.ofScientific 1 false e.natAbs
      else if f == 0.0 then f
      else scaleDown fuel (f / 1e308) (e + 308)

/-- The significand scaled by a power of ten; nothing if that exceeds the range. -/
def scale (significand : Nat) (e : Int) : Option Float :=
  let f := Float.ofNat significand
  if e < 0 then some (scaleDown 8 f e)
  else if e ≤ 308 then
    let scaled := f * Float.ofScientific 1 false e.natAbs
    if scaled.isInf then none else some scaled
  else if significand = 0 then some f
  else none

/-- The float with a sign. -/
def signed (negative : Bool) (x : Float) : Json :=
  .float (if negative then -x else x)

/-- The digits of an exponent, behind its marker, applied to a number read so
far. -/
def readExponent (negative : Bool) (significand : Nat) (e : Int) (text : List Char) :
    Option (Json × List Char) :=
  let (down, text) :=
    match text with
    | '+' :: rest => (false, rest)
    | '-' :: rest => (true, rest)
    | rest => (false, rest)
  let digits := text.takeWhile fun c => (Integer.digit? c).isSome
  let behind := text.drop digits.length
  if digits.isEmpty then none
  else
    let n := digits.foldl (fun n c => n * 10 + (Integer.digit? c).getD 0) 0
    if n < UInt32.size / 2 then
      (scale significand (if down then e - n else e + n)).map fun x => (signed negative x, behind)
    else if significand = 0 ∨ down then some (signed negative 0.0, behind)
    else none

/-- The rest of a number whose integer part is read, `dropped` of its digits
dropped. -/
def readRest (negative : Bool) (significand dropped : Nat) (text : List Char) :
    Option (Json × List Char) :=
  match text with
  | '.' :: rest =>
      match rest with
      | [] => none
      | c :: _ =>
          if (Integer.digit? c).isNone then none
          else
            let (s, used, behind) := takeFraction significand rest
            let e := (dropped : Int) - used
            match behind with
            | 'e' :: behind => readExponent negative s e behind
            | 'E' :: behind => readExponent negative s e behind
            | behind => (scale s e).map fun x => (signed negative x, behind)
  | 'e' :: rest => readExponent negative significand dropped rest
  | 'E' :: rest => readExponent negative significand dropped rest
  | rest =>
      if dropped ≠ 0 then (scale significand dropped).map fun x => (signed negative x, rest)
      else if negative then
        if 1 ≤ significand ∧ significand ≤ UInt64.size / 2 then
          some (.int (-Int.ofNat significand), rest)
        else some (.float (-Float.ofNat significand), rest)
      else some (.int significand, rest)

/-- The number at the start of a text, its sign already read, and the text
behind it.  A leading zero stands alone. -/
def readUnsigned (negative : Bool) : List Char → Option (Json × List Char)
  | [] => none
  | c :: rest =>
      match Integer.digit? c with
      | none => none
      | some 0 =>
          if rest.head?.any fun d => (Integer.digit? d).isSome then none
          else readRest negative 0 0 rest
      | some d =>
          let (significand, dropped, behind) := takeInteger d rest
          readRest negative significand dropped behind

/-- The number at the start of a text and the text behind it. -/
def read : List Char → Option (Json × List Char)
  | '-' :: rest => readUnsigned true rest
  | rest => readUnsigned false rest

end JsonNumber

end TreeSync
