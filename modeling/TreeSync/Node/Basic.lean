import TreeSync.Document.Basic
import TreeSync.Node.MapKey
import TreeSync.Scalar.Slot

/-!
# Nodes

A target is a tree of typed nodes.  Optional and boxed slots are layers around
a core; the core is a scalar, a list, a map, a fixed array, a document or a
record.  A record carries a state of its own, of type `σ`, which no event
addresses.

Main definitions:

- `Field`, `Node`, `Node.ty` and `Kind`.
- `Node.core`: what stands below the layers.
- `Node.scalar?` and `Node.literal?`: the scalar content.
-/

namespace TreeSync

/-- The description of a record field.  Names are never empty, so no key without
a name addresses a field. -/
structure Field where
  /-- The name of the field. -/
  name : String
  /-- Another name that look-up may be told to accept. -/
  secondName : Option String
  /-- Whether events may write the field. -/
  writable : Bool
  /-- The name is not empty. -/
  name_ne : name ≠ "" := by decide
  /-- The second name is not empty. -/
  secondName_ne : secondName ≠ some "" := by decide
  deriving DecidableEq

namespace Field

/-- No second name is not an empty one. -/
theorem none_ne_empty : (none : Option String) ≠ some "" := nofun

/-- The description of a field, if its names are not empty. -/
def of? (name : String) (secondName : Option String) (writable : Bool) : Option Field :=
  if h : name ≠ "" ∧ secondName ≠ some "" then
    some ⟨name, secondName, writable, h.1, h.2⟩
  else none

end Field

/-- A node of a target. -/
inductive Node (σ : Type) where
  /-- A scalar slot. -/
  | scalar (slot : Slot)
  /-- An optional slot without a value, and the type its value would have. -/
  | absent (target : Ty)
  /-- An optional slot with a value. -/
  | present (value : Node σ)
  /-- A boxed value. -/
  | boxed (value : Node σ)
  /-- A list and the type of its elements. -/
  | list (elem : Ty) (items : List (Node σ))
  /-- A map, its key kind and the type of its values. -/
  | map (order : MapOrder) (key : KeyKind) (elem : Ty) (entries : List (MapKey × Node σ))
  /-- A list of fixed length. -/
  | array (elem : Ty) (items : List (Node σ))
  /-- A document. -/
  | dynamic (document : Document)
  /-- A record with its fields in declaration order. -/
  | record (type : String) (fields : List (Field × Node σ)) (state : σ)
  /-- A field that is the record around it. -/
  | enclosing (type : String)

/-- The shape of a node. -/
inductive Kind where
  /-- An optional or boxed slot. -/
  | pointer
  /-- A document. -/
  | dynamic
  /-- A record. -/
  | record
  /-- A map. -/
  | map
  /-- A list. -/
  | list
  /-- A scalar slot. -/
  | scalar
  /-- A kind that events cannot address. -/
  | fixed
  deriving DecidableEq, Repr

namespace Kind

/-- The name of the shape. -/
def name : Kind → String
  | pointer => "Pointer"
  | dynamic => "Interface"
  | record => "Struct"
  | map => "Map"
  | list => "Slice"
  | scalar => "Scalar"
  | fixed => "Unsupported"

end Kind

namespace Node

variable {σ : Type}

instance : Inhabited (Node σ) := ⟨dynamic .null⟩

/-- The type of a node. -/
def ty : Node σ → Ty
  | scalar slot => .scalar slot.kind
  | absent t => .option t
  | present v => .option v.ty
  | boxed v => .box v.ty
  | list elem _ => .list elem
  | map order key elem _ => .map order key elem
  | array elem items => .array elem items.length
  | dynamic _ => .dynamic
  | record type _ _ => .record type
  | enclosing type => .record type

/-- The shape of a node. -/
def kind : Node σ → Kind
  | scalar _ => .scalar
  | absent _ | present _ | boxed _ => .pointer
  | list .. => .list
  | map .. => .map
  | array .. => .fixed
  | dynamic _ => .dynamic
  | record .. | enclosing _ => .record

/-! ## Layers -/

/-- The node below all optional and boxed layers, or the type of the first layer
without a value. -/
def core : Node σ → Except Ty (Node σ)
  | absent t => .error (.option t)
  | present v => v.core
  | boxed v => v.core
  | n => .ok n

/-- The node below all layers, if every layer has a value. -/
def core? (n : Node σ) : Option (Node σ) :=
  n.core.toOption

/-- Whether every layer has a value. -/
def isAllocated (n : Node σ) : Bool :=
  n.core?.isSome

/-- The node below the layers that have a value: the core, or the first layer
without a value. -/
def innermost : Node σ → Node σ
  | present v => v.innermost
  | boxed v => v.innermost
  | n => n

/-! ## Scalar content -/

/-- The scalar held below the layers.  Containers, empty layers and null hold
none. -/
def scalar? (n : Node σ) : Option Scalar :=
  match n.core? with
  | some (scalar slot) => some slot.get
  | some (dynamic d) => d.scalar?
  | _ => none

/-- The canonical literal of the scalar held below the layers. -/
def literal? (n : Node σ) : Option String :=
  match n.core? with
  | some (scalar slot) => some slot.literal
  | some (dynamic d) => d.scalar?.map Scalar.literal
  | _ => none

end Node

end TreeSync
