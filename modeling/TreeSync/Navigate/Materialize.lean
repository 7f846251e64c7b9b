import TreeSync.Navigate.Write

/-!
# Making containers

An event for a map or a sequence makes sure that a container of that shape
stands at its key.  A container of the right shape stays as it is, a dynamic
slot becomes an empty one, and an empty list key always appends.

Main definitions:

- `Schema.materialize`: a container at a key.
- `Schema.promote`: a dynamic leaf on the way becomes a map.
-/

namespace TreeSync

namespace Document

/-- The document, or an empty one of a shape if it has another shape. -/
def shaped : Shape → Document → Document
  | .map, map entries => map entries
  | .map, _ => map []
  | .seq, seq items => seq items
  | .seq, _ => seq []

end Document

namespace Node

variable {σ : Type}

/-- A node without layers as a container of a shape.  Records and lists serve as
maps, since sets and ordered maps may be kept in lists. -/
def shaped (shape : Shape) (c : Node σ) : Except NavError (Node σ) :=
  match c, shape with
  | dynamic d, _ => .ok (dynamic (d.shaped shape))
  | record .., .map | map .., .map | list .., .map | list .., .seq => .ok c
  | array .., _ => .error (.unsupported c.ty.name)
  | _, _ => .error (c.refuses shape.name .shapeDoesNotFit)

end Node

namespace Schema

variable {σ : Type} (S : Schema σ) (o : Options)

/-- A slot with all layers allocated and a container of a shape below them. -/
def shapeSlot (n : Node σ) (shape : Shape) : Node σ × Except NavError Unit :=
  let n := S.allocate n
  match n.innermost.shaped shape with
  | .ok c => (n.replaceAt n.coreAddress c, .ok ())
  | .error e => (n, .error e)

/-- A map or list without layers with a container under a key. -/
def shapeItem (c : Node σ) (key : String) (shape : Shape) (mode : Mode) :
    Node σ × Except NavError Unit :=
  match c.container with
  | .map kind elem entries =>
      match Key.require key >>= fun _ => kind.decode key with
      | .error e => (c, .error e)
      | .ok k =>
          match Entries.get? k entries with
          | some v => c.putBack [.entry k] (S.shapeSlot v shape)
          | none =>
              match S.shapeSlot (S.zero elem) shape with
              | (v, .ok ()) => (c.putChild (.entry k) v, .ok ())
              | (_, .error e) => (c, .error e)
  | .list elem items =>
      if key.isEmpty then
        match S.shapeSlot (S.zero elem) shape with
        | (item, .ok ()) => (c.append item, .ok ())
        | (_, .error e) => (c, .error e)
      else
        match S.locateOrAppend o c elem items key mode with
        | (c, .error e) => (c, .error e)
        | (c, .ok i) =>
            match c.child? (.element i) with
            | some item => c.putBack [.element i] (S.shapeSlot item shape)
            | none => (c, .error (.entryNotFound key))
  | .record type _ => (c, .error (.fieldNotFound "" type))
  | .fixed => (c, .error (.unsupported c.ty.name))
  | .leaf => (c, .error (.notContainer c.ty.name))

/-- The container with a container of a shape at a key. -/
def materialize (n : Node σ) (key : String) (shape : Shape) (mode : Mode) :
    Node σ × Except NavError Unit :=
  let n := S.allocate n
  let c := n.innermost
  n.putBack n.coreAddress <|
    match c.container with
    | .record type fields =>
        match writableField o c type fields key with
        | .error e => (c, .error e)
        | .ok (place, rest) =>
            c.putBack place.address <|
              if rest.isEmpty then S.shapeSlot place.node shape
              else
                let child := S.allocate place.node
                child.putBack child.coreAddress
                  (S.shapeItem o child.innermost rest shape .content)
    | _ => S.shapeItem o c key shape mode

/-- The node with all layers allocated and, if it is a dynamic leaf, with an
empty map in its place, so that it can be entered. -/
def promote (n : Node σ) : Node σ :=
  let n := S.allocate n
  match n.innermost with
  | .dynamic d => if d.isLeaf then n.replaceAt n.coreAddress (.dynamic (.map [])) else n
  | _ => n

end Schema

end TreeSync
