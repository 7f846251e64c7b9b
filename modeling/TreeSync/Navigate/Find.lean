import TreeSync.Navigate.Element
import TreeSync.Navigate.Mode

/-!
# Finding children

One key leads from a container to one of its children.  Finding never changes
the container; `Schema.findOrCreate` adds what is missing on the way.

A key such as `field[name=value]` leads through a record field into the list or
map that the field holds.  The bracketed text has no name in front, and no field
has an empty name, so it never leads into a record.

Main definitions:

- `Schema.locate`: the position of a list element.
- `Schema.find` and `Schema.findRef`: the child at a key.
- `Schema.findOrCreate`: the child at a key, made if it is missing.
-/

namespace TreeSync

namespace KeyKind

/-- The map key that a literal spells, as a step of navigation. -/
def decode (kind : KeyKind) (literal : String) : Except NavError MapKey :=
  match kind.readKey literal with
  | .ok key => .ok key
  | .error e => .error (.keyNotAddressable literal (.notAMapKey e))

end KeyKind

namespace Node

variable {σ α : Type}

/-- The node with a changed descendant put back at its address, beside the
result of the change. -/
def putBack (n : Node σ) (address : Address) (changed : Node σ × α) : Node σ × α :=
  (n.replaceAt address changed.1, changed.2)

end Node

namespace Schema

variable {σ : Type} (S : Schema σ) (o : Options)

/-- The position of the element that a key addresses, if there is one. -/
def locate (elem : Ty) (items : List (Node σ)) (key : String) (mode : Mode) :
    Except NavError (Option Nat) :=
  match mode with
  | .index =>
      match Mode.position? key with
      | some i => .ok (if i < items.length then some i else none)
      | none => .error (.keyNotAddressable key .notAnIndex)
  | .content => do
      Key.require key
      S.matchIndex o elem items key
  | .first => .ok (if items.isEmpty then none else some 0)
  | .last => .ok (if items.isEmpty then none else some (items.length - 1))
  | .none => .error (.keyNotAddressable key .noMode)

/-! ## Finding -/

/-- The entry or element of a container without layers. -/
def findItem (c : Node σ) (key : String) (mode : Mode) : Except NavError (Place σ) :=
  match c.container with
  | .map kind _ entries => do
      Key.require key
      let k ← kind.decode key
      match Entries.get? k entries with
      | some v => .ok ⟨[.entry k], v⟩
      | none => .error (.entryNotFound key)
  | .list elem items => do
      match ← S.locate o elem items key mode with
      | some i =>
          match items[i]? with
          | some v => .ok ⟨[.element i], v⟩
          | none => .error (.entryNotFound key)
      | none => .error (.entryNotFound key)
  | .record type _ => .error (.fieldNotFound "" type)
  | .fixed => .error (.unsupported c.ty.name)
  | .leaf => .error (.notContainer c.ty.name)

/-- The child of a container at a key.  An unallocated field counts as missing,
and so does everything below an unallocated layer. -/
def find (n : Node σ) (key : String) (mode : Mode) : Except NavError (Place σ) :=
  match n.core with
  | .error t => .error (.unallocated t.name)
  | .ok c =>
      Place.under n.coreAddress <$>
        match c.container with
        | .record type fields => do
            Key.require key
            let (name, rest) ← Key.splitField key
            let place ← c.fieldPlace o false type fields name
            if rest.isEmpty then
              if place.node.isAllocated then .ok place
              else .error (.unallocated place.node.ty.name)
            else
              match place.node.core with
              | .error t => .error (.unallocated t.name)
              | .ok d =>
                  Place.under (place.address ++ place.node.coreAddress) <$>
                    S.findItem o d rest .content
        | _ => S.findItem o c key mode

/-- The entry or element at a key that a reader is shown. -/
def readItem (c : Node σ) (key : String) (mode : Mode) : Except NavError (Place σ) :=
  match c.container with
  | .record type _ => .error (.fieldNotFound "" type)
  | .map kind _ entries =>
      if key.isEmpty then .error (.keyNotAddressable key .emptyKey)
      else
        match kind.readKey key with
        | .error e => .error (.keyNotAddressable key (.notAMapKey e))
        | .ok k =>
            ((Entries.get? k entries).map (Place.mk [.entry k])).elim
              (.error (.entryNotFound key)) .ok
  | .list elem items =>
      match S.locate o elem items key mode with
      | .error e => .error e
      | .ok position =>
          (position.bind fun i => items[i]?.map (Place.mk [.element i])).elim
            (.error (.entryNotFound key)) .ok
  | .fixed => .error (.unsupported c.ty.name)
  | .leaf => .error (.notContainer c.ty.name)

/-- The child of a container at a key, for reading.  Where a layer is missing
the failure names the type of the outermost layer. -/
def findRef (n : Node σ) (key : String) (mode : Mode) : Except NavError (Place σ) :=
  match n.core? with
  | none => .error (.unallocated n.ty.name)
  | some c =>
      match c.container with
      | .record type fields =>
          if key.isEmpty then .error (.keyNotAddressable key .emptyKey)
          else do
            let (name, rest) ← Key.splitField key
            let field ← c.fieldPlace o false type fields name
            let place := field.under n.coreAddress
            match field.node.core?, rest.isEmpty with
            | none, _ => .error (.unallocated field.node.ty.name)
            | some _, true => .ok place
            | some d, false =>
                Place.under (place.address ++ field.node.coreAddress) <$>
                  S.readItem o d rest .content
      | _ => Place.under n.coreAddress <$> S.readItem o c key mode

/-! ## Finding or creating -/

/-- The position of the element that a key addresses.  A missing element is
appended: a new one for an empty key, else the one that the key describes.  A
position cannot be made. -/
def locateOrAppend (c : Node σ) (elem : Ty) (items : List (Node σ)) (key : String) (mode : Mode) :
    Node σ × Except NavError Nat :=
  match S.locate o elem items key mode with
  | .error e => (c, .error e)
  | .ok (some i) => (c, .ok i)
  | .ok none =>
      if mode = .index then (c, .error (.entryNotFound key))
      else
        match if key.isEmpty then .ok (S.zero elem) else S.build o elem key with
        | .error e => (c, .error e)
        | .ok item => (c.append item, .ok items.length)

/-- The entry or element of a container without layers, made if missing. -/
def createItem (c : Node σ) (key : String) (mode : Mode) : Node σ × Except NavError Address :=
  match c.container with
  | .map kind elem entries =>
      match Key.require key >>= fun _ => kind.decode key with
      | .error e => (c, .error e)
      | .ok k =>
          match Entries.get? k entries with
          | some _ => (c, .ok [.entry k])
          | none => (c.putChild (.entry k) (S.zero elem), .ok [.entry k])
  | .list elem items =>
      let (c, position) := S.locateOrAppend o c elem items key mode
      (c, (fun i => [.element i]) <$> position)
  | .record type _ => (c, .error (.fieldNotFound "" type))
  | .fixed => (c, .error (.unsupported c.ty.name))
  | .leaf => (c, .error (.notContainer c.ty.name))

/-- The child of a container without layers, made if missing; a record field is
always there. -/
def createChild (c : Node σ) (key : String) (mode : Mode) : Node σ × Except NavError Address :=
  match c.container with
  | .record type fields =>
      let target : Except NavError (Place σ × String) := do
        Key.require key
        let (name, rest) ← Key.splitField key
        let place ← c.fieldPlace o false type fields name
        return (place, rest)
      match target with
      | .error e => (c, .error e)
      | .ok (place, rest) =>
          if rest.isEmpty then (c, .ok place.address)
          else
            let child := S.allocate place.node
            let (inside, r) := S.createItem o child.innermost rest .content
            (c.replaceAt place.address (child.replaceAt child.coreAddress inside),
              (fun a => place.address ++ child.coreAddress ++ a) <$> r)
  | _ => S.createItem o c key mode

/-- The address of the child at a key, with all layers of the container and of
the child allocated and the child made if it is missing.  What was made on the
way stays when a later step fails. -/
def findOrCreate (n : Node σ) (key : String) (mode : Mode) : Node σ × Except NavError Address :=
  let n := S.allocate n
  match n.putBack n.coreAddress (S.createChild o n.innermost key mode) with
  | (m, .error e) => (m, .error e)
  | (m, .ok a) =>
      let address := n.coreAddress ++ a
      match m.get? address with
      | none => (m, .error (.entryNotFound key))
      | some child =>
          let child := S.allocate child
          (m.replaceAt address child, .ok (address ++ child.coreAddress))

end Schema

end TreeSync
