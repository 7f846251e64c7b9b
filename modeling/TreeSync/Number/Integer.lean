/-!
# Decimal integers

Reading an integer literal within bounds: an optional sign and one or more
ASCII digits.  A minus sign is a sign only where negative values are in
bounds.  The text is read from the left, and the first character that is no
digit or that makes the value leave the bounds decides the fault.

Main definitions:

- `Integer.read`: the value of a literal within bounds, or its fault.
- `Integer.text`: the canonical literal.
-/

namespace TreeSync

/-- Why a text is no integer within the bounds. -/
inductive IntegerFault where
  /-- The text is empty. -/
  | empty
  /-- A character is no digit, or no digit follows the sign. -/
  | invalidDigit
  /-- The value exceeds the upper bound. -/
  | tooLarge
  /-- The value is below the lower bound. -/
  | tooSmall
  deriving DecidableEq, Repr

namespace IntegerFault

/-- The fault as a phrase. -/
def message : IntegerFault → String
  | empty => "cannot parse integer from empty string"
  | invalidDigit => "invalid digit found in string"
  | tooLarge => "number too large to fit in target type"
  | tooSmall => "number too small to fit in target type"

/-- Whether the value is out of bounds, the text being well formed so far. -/
def isOverflow : IntegerFault → Bool
  | tooLarge | tooSmall => true
  | empty | invalidDigit => false

end IntegerFault

namespace Integer

/-- The value of an ASCII digit. -/
def digit? (c : Char) : Option Nat :=
  if '0' ≤ c ∧ c ≤ '9' then some (c.toNat - '0'.toNat) else none

/-- The value of digits behind the value `acc` of earlier ones, at most
`limit`. -/
def readDigits (limit : Nat) (excess : IntegerFault) (acc : Nat) :
    List Char → Except IntegerFault Nat
  | [] => .ok acc
  | c :: rest =>
      match digit? c with
      | none => .error .invalidDigit
      | some d =>
          if acc * 10 + d ≤ limit then readDigits limit excess (acc * 10 + d) rest
          else .error excess

/-- The value of one or more digits, at most `limit`. -/
def readMagnitude (limit : Nat) (excess : IntegerFault) (digits : List Char) :
    Except IntegerFault Nat :=
  if digits.isEmpty then .error .invalidDigit else readDigits limit excess 0 digits

/-- The value of an integer literal between `lo` and `hi`, where `lo ≤ 0 ≤ hi`. -/
def read (lo hi : Int) (text : List Char) : Except IntegerFault Int :=
  match text with
  | [] => .error .empty
  | c :: rest =>
      if c = '+' then Int.ofNat <$> readMagnitude hi.toNat .tooLarge rest
      else if c = '-' ∧ lo < 0 then
        (fun n => -Int.ofNat n) <$> readMagnitude (-lo).toNat .tooSmall rest
      else Int.ofNat <$> readMagnitude hi.toNat .tooLarge (c :: rest)

/-- The canonical literal of an integer. -/
def text (n : Int) : String :=
  match n with
  | .ofNat m => String.ofList (Nat.toDigits 10 m)
  | .negSucc m => "-" ++ String.ofList (Nat.toDigits 10 (m + 1))

end Integer

end TreeSync
