import TreeSync.Json.Basic
import TreeSync.Scalar.Basic

/-!
# Documents

A document is a dynamically typed tree.  The entries of a map ascend by key.

Main definitions:

- `Document`, its leaves and its scalar content.
- `Document.toJson` and `Document.ofJson`.
-/

namespace TreeSync

/-- A dynamically typed tree. -/
inductive Document where
  /-- The empty leaf. -/
  | null
  /-- A truth value. -/
  | bool (value : Bool)
  /-- An integer. -/
  | int (value : Int64)
  /-- A floating-point number. -/
  | float (value : Float)
  /-- A text. -/
  | text (value : String)
  /-- A sequence. -/
  | seq (items : List Document)
  /-- A map; its keys ascend by code points. -/
  | map (entries : List (String × Document))

namespace Document

instance : Inhabited Document := ⟨null⟩

/-- Whether the document is null. -/
def isNull : Document → Bool
  | null => true
  | _ => false

/-- Whether the document has no children: anything but a sequence or a map. -/
def isLeaf : Document → Bool
  | seq _ | map _ => false
  | _ => true

/-! ## Typed readings -/

/-- The truth value held. -/
def bool? : Document → Option Bool
  | bool b => some b
  | _ => none

/-- The integer held. -/
def int? : Document → Option Int64
  | int n => some n
  | _ => none

/-- The number held, an integer included. -/
def float? : Document → Option Float
  | float x => some x
  | int n => some (Float.ofInt n.toInt)
  | _ => none

/-- The text held. -/
def text? : Document → Option String
  | text s => some s
  | _ => none

/-- The items held. -/
def seq? : Document → Option (List Document)
  | seq items => some items
  | _ => none

/-- The entries held. -/
def map? : Document → Option (List (String × Document))
  | map entries => some entries
  | _ => none

/-- The child under a key when this is a map. -/
def get? (key : String) : Document → Option Document
  | map entries => Entries.get? key entries
  | _ => none

/-- The scalar held by a leaf.  Null and containers hold none. -/
def scalar? : Document → Option Scalar
  | bool b => some (.bool b)
  | int n => some (.int n)
  | float x => some (.float x)
  | text s => some (.text s)
  | null | seq _ | map _ => none

/-- The leaf closest to a scalar.  An unsigned number beyond the signed range
becomes a floating-point number, a character a text. -/
def ofScalar : Scalar → Document
  | .bool b => bool b
  | .int n => int n
  | .uint n =>
      if n.toNat < UInt64.size / 2 then int (Int64.ofInt n.toNat) else float (Float.ofNat n.toNat)
  | .float x => float x
  | .char c => text (String.ofList [c])
  | .text s => text s

/-! ## JSON form -/

/-- A floating-point number that JSON can hold, null for the others. -/
def floatJson (x : Float) : Json :=
  if x.isFinite then .float x else .null

mutual

/-- The plain JSON form. -/
def toJson : Document → Json
  | null => .null
  | bool b => .bool b
  | int n => .int n.toInt
  | float x => floatJson x
  | text s => .text s
  | seq items => .array (toJsonItems items)
  | map entries => .object (toJsonMembers entries)

/-- The JSON form of every item. -/
def toJsonItems : List Document → List Json
  | [] => []
  | item :: rest => item.toJson :: toJsonItems rest

/-- The JSON form of every entry. -/
def toJsonMembers : List (String × Document) → List (String × Json)
  | [] => []
  | (key, value) :: rest => (key, value.toJson) :: toJsonMembers rest

end

/-- The number as a document: an integer where it fits the signed range. -/
def ofInteger (n : Int) : Document :=
  if IntKind.i64.Contains n then int (Int64.ofInt n) else float (Float.ofInt n)

mutual

/-- The document that a JSON value spells; of equal member names the last one
counts. -/
def ofJson : Json → Document
  | .null => null
  | .bool b => bool b
  | .int n => ofInteger n
  | .float x => float x
  | .text s => text s
  | .array items => seq (ofJsonItems items)
  | .object members => map (ofJsonMembers [] members)

/-- The documents of every item. -/
def ofJsonItems : List Json → List Document
  | [] => []
  | item :: rest => ofJson item :: ofJsonItems rest

/-- The entries of the members, put among those already read. -/
def ofJsonMembers (done : List (String × Document)) :
    List (String × Json) → List (String × Document)
  | [] => done
  | (name, value) :: rest =>
      ofJsonMembers (Entries.put Json.nameBefore name (ofJson value) done) rest

end

end Document

end TreeSync
