import TreeSync.Scalar.Convert

/-!
# Scalar slots

A slot holds one value of its kind for good; writing converts the new value to
that kind.

Main definitions:

- `Slot`, `Slot.kind`, `Slot.get` and `Slot.literal`.
- `Slot.ofScalar` and `Slot.set`: writing with conversion.
-/

namespace TreeSync

/-- A value of a scalar kind. -/
inductive Slot where
  /-- A truth value. -/
  | bool (value : Bool)
  /-- An integer within the bounds of its kind. -/
  | int (kind : IntKind) (value : Int) (inBounds : kind.Contains value)
  /-- A single-precision number. -/
  | f32 (value : Float32)
  /-- A double-precision number. -/
  | f64 (value : Float)
  /-- A character. -/
  | char (value : Char)
  /-- A text. -/
  | text (value : String)

namespace Slot

/-- The kind of the slot. -/
def kind : Slot → ScalarKind
  | bool _ => .bool
  | int k _ _ => .int k
  | f32 _ => .f32
  | f64 _ => .f64
  | char _ => .char
  | text _ => .string

/-- The value detached from the slot. -/
def get : Slot → Scalar
  | bool b => .bool b
  | int k n h => k.toScalar ⟨n, h⟩
  | f32 v => .float v.toFloat
  | f64 v => .float v
  | char c => .char c
  | text s => .text s

/-- The canonical literal of the value.  A single-precision number has the
fewest digits that read back at its own width. -/
def literal : Slot → String
  | bool b => Scalar.boolText b
  | int _ n _ => Integer.text n
  | f32 v => singleText v
  | f64 v => doubleText v
  | char c => String.ofList [c]
  | text s => s

/-- A slot of a kind that holds the zero value. -/
def zero : ScalarKind → Slot
  | .bool => bool false
  | .int k => int k 0 k.contains_zero
  | .f32 => f32 0.0
  | .f64 => f64 0.0
  | .char => char '\x00'
  | .string => text ""

/-- A slot of a kind that holds a scalar converted to it. -/
def ofScalar (kind : ScalarKind) (s : Scalar) : Except ConversionError Slot :=
  match kind with
  | .bool => bool <$> s.toBool
  | .int k => (fun n => int k n.1 n.2) <$> s.toInteger k
  | .f32 => (fun v => f32 v.toFloat32) <$> s.toFloat true
  | .f64 => f64 <$> s.toFloat false
  | .char => char <$> s.toChar
  | .string => .ok (text s.literal)

/-- The slot after writing a scalar. -/
def set (slot : Slot) (s : Scalar) : Except ConversionError Slot :=
  ofScalar slot.kind s

/-- The slot after writing a literal. -/
def setLiteral (slot : Slot) (literal : String) : Except ConversionError Slot :=
  slot.set (.text literal)

end Slot

end TreeSync
