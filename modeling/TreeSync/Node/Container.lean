import TreeSync.Node.Address

/-!
# Containers

Typed containers and documents offer the same three views: a record with its
fields, a map with its entries, a list with its items.  Maps and sequences of
documents are maps keyed by text and lists of documents.

Main definitions:

- `Container` and `Node.container`.
- `Node.eraseEntry`, `Node.append` and `Node.eraseItem`.
-/

namespace TreeSync

/-- A node below its layers, seen as a container. -/
inductive Container (σ : Type) where
  /-- A record. -/
  | record (type : String) (fields : List (Field × Node σ))
  /-- A map. -/
  | map (key : KeyKind) (elem : Ty) (entries : List (MapKey × Node σ))
  /-- A list. -/
  | list (elem : Ty) (items : List (Node σ))
  /-- A container that events cannot address. -/
  | fixed
  /-- No container at all. -/
  | leaf

namespace Node

variable {σ : Type}

/-- The entries of a document as entries of a map. -/
def documentEntries (entries : List (String × Document)) : List (MapKey × Node σ) :=
  entries.map fun e => (.text e.1, dynamic e.2)

/-- The container that a node without layers is. -/
def container : Node σ → Container σ
  | record type fields _ => .record type fields
  | map _ key elem entries => .map key elem entries
  | list elem items => .list elem items
  | dynamic (.map entries) => .map .string .dynamic (documentEntries entries)
  | dynamic (.seq items) => .list .dynamic (items.map dynamic)
  | array .. => .fixed
  | _ => .leaf

/-- The entry of a map without layers that a key literal spells. -/
def entry? (n : Node σ) (literal : String) : Option (Node σ) :=
  match n.container with
  | .map kind _ entries =>
      match kind.readKey literal with
      | .ok key => Entries.get? key entries
      | .error _ => none
  | _ => none

/-- A map without layers after erasing a key. -/
def eraseEntry (key : MapKey) : Node σ → Node σ
  | map order kind elem entries => map order kind elem (Entries.erase key entries)
  | dynamic (.map entries) =>
      match key with
      | .text k => dynamic (.map (Entries.erase k entries))
      | _ => dynamic (.map entries)
  | n => n

/-- A list without layers with an item behind the others. -/
def append (n item : Node σ) : Node σ :=
  match n, item with
  | list elem items, item => list elem (items ++ [item])
  | dynamic (.seq items), dynamic d => dynamic (.seq (items ++ [d]))
  | n, _ => n

/-- A list without layers after removing the item at a position. -/
def eraseItem (index : Nat) : Node σ → Node σ
  | list elem items => list elem (items.eraseIdx index)
  | dynamic (.seq items) => dynamic (.seq (items.eraseIdx index))
  | n => n

end Node

end TreeSync
