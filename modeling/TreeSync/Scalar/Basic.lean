import TreeSync.Number.Integer
import TreeSync.Number.Layout
import TreeSync.Scalar.Kind

/-!
# Scalars

A scalar is a value detached from any slot.  Signed kinds share one form,
unsigned kinds another, and both floating-point widths a third.

Main definitions:

- `Scalar` and its canonical literal `Scalar.literal`.
- `ScalarKind.zero`: the zero value of a kind.
-/

namespace TreeSync

/-- A scalar value detached from any slot. -/
inductive Scalar where
  /-- A truth value. -/
  | bool (value : Bool)
  /-- A value of a signed kind. -/
  | int (value : Int64)
  /-- A value of an unsigned kind. -/
  | uint (value : UInt64)
  /-- A value of a floating-point kind. -/
  | float (value : Float)
  /-- A character. -/
  | char (value : Char)
  /-- A text. -/
  | text (value : String)

namespace Scalar

/-- The canonical literal of a truth value. -/
def boolText (b : Bool) : String :=
  if b then "true" else "false"

/-- The canonical literal of a scalar. -/
def literal : Scalar → String
  | bool b => boolText b
  | int v => Integer.text v.toInt
  | uint v => Integer.text v.toNat
  | float v => doubleText v
  | char c => String.ofList [c]
  | text s => s

end Scalar

namespace IntKind

/-- The scalar form of a value of the kind. -/
def toScalar (k : IntKind) (n : { n : Int // k.Contains n }) : Scalar :=
  if k.signed then .int (Int64.ofInt n) else .uint (UInt64.ofNat n.val.toNat)

end IntKind

namespace ScalarKind

/-- The zero value of a kind. -/
def zero : ScalarKind → Scalar
  | bool => .bool false
  | int k => if k.signed then .int 0 else .uint 0
  | f32 | f64 => .float 0.0
  | char => .char '\x00'
  | string => .text ""

end ScalarKind

end TreeSync
