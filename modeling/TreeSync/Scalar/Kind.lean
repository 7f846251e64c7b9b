/-!
# Scalar kinds

The kinds of value that a scalar slot can hold: truth values, ten integer
widths, two floating-point widths, characters and text.

Main definitions:

- `IntKind` with its bounds, and `IntKind.Contains`.
- `ScalarKind`, and `KeyKind` for the kinds a map can be keyed by.
-/

namespace TreeSync

/-- The integer kinds.  The two `size` kinds are 64 bits wide. -/
inductive IntKind where
  | i8 | i16 | i32 | i64 | isize | u8 | u16 | u32 | u64 | usize
  deriving DecidableEq, Repr

namespace IntKind

/-- The name of the kind. -/
def name : IntKind → String
  | i8 => "i8"
  | i16 => "i16"
  | i32 => "i32"
  | i64 => "i64"
  | isize => "isize"
  | u8 => "u8"
  | u16 => "u16"
  | u32 => "u32"
  | u64 => "u64"
  | usize => "usize"

/-- Whether the kind has negative values. -/
def signed : IntKind → Bool
  | i8 | i16 | i32 | i64 | isize => true
  | u8 | u16 | u32 | u64 | usize => false

/-- The width in bits. -/
def bits : IntKind → Nat
  | i8 | u8 => 8
  | i16 | u16 => 16
  | i32 | u32 => 32
  | i64 | isize | u64 | usize => 64

/-- The least value of the kind. -/
def lo (k : IntKind) : Int :=
  if k.signed then -Int.ofNat (Nat.pow 2 (k.bits - 1)) else 0

/-- The greatest value of the kind. -/
def hi (k : IntKind) : Int :=
  Int.ofNat (Nat.pow 2 (if k.signed then k.bits - 1 else k.bits)) - 1

/-- The number is a value of the kind. -/
def Contains (k : IntKind) (n : Int) : Prop :=
  k.lo ≤ n ∧ n ≤ k.hi

instance (k : IntKind) (n : Int) : Decidable (k.Contains n) :=
  inferInstanceAs (Decidable (_ ∧ _))

/-- Zero is a value of every kind. -/
theorem contains_zero (k : IntKind) : k.Contains 0 := by
  cases k <;> decide

/-- The widest kind of the same signedness: literals are read at its width. -/
def widest (k : IntKind) : IntKind :=
  if k.signed then i64 else u64

end IntKind

/-- The kinds a scalar slot can have. -/
inductive ScalarKind where
  /-- Truth values. -/
  | bool
  /-- Integers of one width and signedness. -/
  | int (kind : IntKind)
  /-- Single-precision floating-point numbers. -/
  | f32
  /-- Double-precision floating-point numbers. -/
  | f64
  /-- Single characters. -/
  | char
  /-- Text. -/
  | string
  deriving DecidableEq, Repr

namespace ScalarKind

/-- The name of the kind. -/
def name : ScalarKind → String
  | bool => "bool"
  | int k => k.name
  | f32 => "f32"
  | f64 => "f64"
  | char => "char"
  | string => "String"

/-- Whether the kind is a floating-point kind. -/
def isFloat : ScalarKind → Bool
  | f32 | f64 => true
  | _ => false

/-- Whether the kind is an integer kind. -/
def isInteger : ScalarKind → Bool
  | int _ => true
  | _ => false

/-- Whether the kind is an integer kind without negative values. -/
def isUnsigned : ScalarKind → Bool
  | int k => !k.signed
  | _ => false

end ScalarKind

/-- The kinds a map can be keyed by: every scalar kind whose values are totally
ordered. -/
inductive KeyKind where
  /-- Truth values. -/
  | bool
  /-- Integers of one width and signedness. -/
  | int (kind : IntKind)
  /-- Single characters. -/
  | char
  /-- Text. -/
  | string
  deriving DecidableEq, Repr

namespace KeyKind

/-- The key kind as a scalar kind. -/
def toScalarKind : KeyKind → ScalarKind
  | bool => .bool
  | int k => .int k
  | char => .char
  | string => .string

end KeyKind

end TreeSync
