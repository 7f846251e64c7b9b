import TreeSync.Node.Ty
import TreeSync.Scalar.Convert

/-!
# Map keys

Keys reach a map as literals.  A literal is read as a value of the map's key
kind, so different spellings of one value address one entry.

Main definitions:

- `MapKey`, `MapKey.literal` and `KeyKind.readKey`.
- `MapOrder.before`: the order of entries.
-/

namespace TreeSync

/-- The value of a key. -/
inductive MapKey where
  /-- A truth value. -/
  | bool (value : Bool)
  /-- An integer. -/
  | int (value : Int)
  /-- A character. -/
  | char (value : Char)
  /-- A text. -/
  | text (value : String)
  deriving DecidableEq, Repr

namespace MapKey

/-- The canonical literal of a key. -/
def literal : MapKey → String
  | bool b => Scalar.boolText b
  | int n => Integer.text n
  | char c => String.ofList [c]
  | text s => s

/-- The order of key values: false before true, numbers by value, characters
and texts by code points. -/
def before : MapKey → MapKey → Bool
  | bool a, bool b => !a && b
  | int a, int b => decide (a < b)
  | char a, char b => decide (a < b)
  | text a, text b => decide (a < b)
  | _, _ => false

end MapKey

namespace MapOrder

/-- Whether one key stands in front of another. -/
def before : MapOrder → MapKey → MapKey → Bool
  | sorted, a, b => a.before b
  | hashed, a, b => decide (a.literal < b.literal)

end MapOrder

namespace KeyKind

/-- The key that a literal spells. -/
def readKey (kind : KeyKind) (literal : String) : Except ConversionError MapKey :=
  match kind with
  | bool => MapKey.bool <$> (Scalar.text literal).toBool
  | int k => (fun n => MapKey.int n.1) <$> k.read literal
  | char => MapKey.char <$> (Scalar.text literal).toChar
  | string => .ok (.text literal)

end KeyKind

end TreeSync
