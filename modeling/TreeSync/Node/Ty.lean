import TreeSync.Scalar.Kind

/-!
# Types of nodes

The type of a node in a typed tree.  Record types are known by name; the schema
holds what a name stands for, so that record types may be recursive.
-/

namespace TreeSync

/-- How the entries of a map are ordered. -/
inductive MapOrder where
  /-- By the value of the key. -/
  | sorted
  /-- By nothing the outside can rely on; shown by the text of the key. -/
  | hashed
  deriving DecidableEq, Repr

/-- The type of a node. -/
inductive Ty where
  /-- A scalar slot. -/
  | scalar (kind : ScalarKind)
  /-- A slot that may be unallocated. -/
  | option (target : Ty)
  /-- A slot that is always allocated. -/
  | box (target : Ty)
  /-- A list that grows and shrinks. -/
  | list (elem : Ty)
  /-- A map from keys of one kind. -/
  | map (order : MapOrder) (key : KeyKind) (elem : Ty)
  /-- A list of fixed length, which no event can address. -/
  | array (elem : Ty) (length : Nat)
  /-- A slot that holds a document. -/
  | dynamic
  /-- A record of the schema. -/
  | record (name : String)
  deriving DecidableEq, Repr

namespace Ty

instance : Inhabited Ty := ⟨dynamic⟩

/-- The name of a scalar type. -/
def scalarName : ScalarKind → String
  | .string => "alloc::string::String"
  | k => k.name

/-- The name of a type as it stands in messages. -/
def name : Ty → String
  | scalar k => scalarName k
  | option t => "core::option::Option<" ++ t.name ++ ">"
  | box t => "alloc::boxed::Box<" ++ t.name ++ ">"
  | list t => "alloc::vec::Vec<" ++ t.name ++ ">"
  | map .sorted k t =>
      "alloc::collections::btree::map::BTreeMap<" ++ scalarName k.toScalarKind ++ ", " ++
        t.name ++ ">"
  | map .hashed k t =>
      "std::collections::hash::map::HashMap<" ++ scalarName k.toScalarKind ++ ", " ++
        t.name ++ ">"
  | array t n => "[" ++ t.name ++ "; " ++ toString n ++ "]"
  | dynamic => "ysync::reflect::value::Value"
  | record n => n

/-- The type below the boxes of a freshly allocated value.  A value whose
outermost unboxed layer is an unallocated slot has none. -/
def freshTarget? : Ty → Option Ty
  | box t => t.freshTarget?
  | option _ => none
  | t => some t

end Ty

end TreeSync
