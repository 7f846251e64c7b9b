import TreeSync.Navigate.Find

/-!
# Writing children

A write carries a literal or a typed value.  Map entries are added or replaced,
record fields are converted in place, and lists grow: under content addressing
only when no equal element is there, in every other mode always.

Main definitions:

- `Payload`.
- `Schema.setSlot`: writing into one slot.
- `Schema.write`: writing the child at a key.
-/

namespace TreeSync

/-- What a write carries. -/
inductive Payload (σ : Type) where
  /-- A literal, and what a dynamic slot takes instead of its text. -/
  | literal (text : String) (document : Option Document)
  /-- A typed value. -/
  | typed (value : Node σ)

namespace Payload

variable {σ : Type}

/-- What a list receives under a key.  A literal without text stands for the key
itself, so that the members of a set can be given as keys. -/
def orKey (key : String) : Payload σ → Payload σ
  | literal text document =>
      if text.isEmpty && !key.isEmpty then literal key none else literal text document
  | typed value => typed value

end Payload

namespace Node

variable {σ : Type}

/-- The failure to write the type or literal `value` into a node. -/
def refuses (c : Node σ) (value : String) (reason : Mismatch) : NavError :=
  .conversion (.mismatch value c.ty.name reason)

/-- A slot with a scalar written, as a step of navigation. -/
def setScalar (slot : Slot) (s : Scalar) : Except NavError (Node σ) :=
  match slot.set s with
  | .ok slot => .ok (scalar slot)
  | .error e => .error (.conversion e)

/-- A node without layers with a typed value written into it.  A value of the
same type replaces it; scalars convert; nothing else fits. -/
def assign (c value : Node σ) : Except NavError (Node σ) :=
  if c.ty = value.ty then .ok value
  else
    match c, value.scalar? with
    | scalar slot, some s => setScalar slot s
    | scalar _, none => .error (c.refuses value.ty.name .notScalar)
    | dynamic _, some s => .ok (dynamic (.ofScalar s))
    | dynamic _, none => .error (c.refuses value.ty.name .dynamicTakesScalars)
    | _, _ => .error (c.refuses value.ty.name .typeDiffers)

end Node

namespace Schema

variable {σ : Type} (S : Schema σ) (o : Options)

/-! ## One slot -/

/-- A node without layers with a literal written into it.  A record is built
anew from a structured literal; containers take only the empty literal. -/
def assignLiteral (c : Node σ) (text : String) (document : Option Document) :
    Except NavError (Node σ) :=
  match c with
  | .record .. =>
      if text.isEmpty then .ok c
      else if Key.isStructured text then S.build o c.ty text
      else .error (c.refuses text .recordNeedsKey)
  | .scalar slot => Node.setScalar slot (.text text)
  | .dynamic _ => .ok (.dynamic (document.getD (.text text)))
  | .list .. | .map .. =>
      if text.isEmpty then .ok c else .error (c.refuses text .containerNotScalar)
  | .array .. => .error (.unsupported c.ty.name)
  | _ => .error (c.refuses text .containerNotScalar)

/-- A slot with all layers allocated and a payload written below them.  The
layers stay allocated when the payload does not fit. -/
def setSlot (n : Node σ) (payload : Payload σ) : Node σ × Except NavError Unit :=
  let n := S.allocate n
  let written :=
    match payload with
    | .literal text document => S.assignLiteral o n.innermost text document
    | .typed value => n.innermost.assign value
  match written with
  | .ok c => (n.replaceAt n.coreAddress c, .ok ())
  | .error e => (n, .error e)

/-! ## One child -/

/-- A list with a new element that holds the payload. -/
def appendSlot (c : Node σ) (elem : Ty) (payload : Payload σ) : Node σ × Except NavError Unit :=
  match S.setSlot o (S.zero elem) payload with
  | (item, .ok ()) => (c.append item, .ok ())
  | (_, .error e) => (c, .error e)

/-- The position of an element equal to what is written by content. -/
def duplicate? (elem : Ty) (items : List (Node σ)) (key : String) (payload : Payload σ) :
    Except NavError (Option Nat) :=
  match payload, key.isEmpty with
  | .typed value, true => .ok (items.findIdx? fun item => item.same value)
  | _, _ => do
      Key.require key
      S.matchIndex o elem items key

/-- A list with a payload added under a key. -/
def writeElement (c : Node σ) (elem : Ty) (items : List (Node σ)) (key : String)
    (payload : Payload σ) (mode : Mode) : Node σ × Except NavError Unit :=
  match mode with
  | .none => (c, .error (.keyNotAddressable key .noMode))
  | .content =>
      match S.duplicate? o elem items key payload with
      | .error e => (c, .error e)
      | .ok (some _) => (c, .ok ())
      | .ok none =>
          match payload with
          | .typed _ => S.appendSlot o c elem payload
          | .literal .. =>
              match S.build o elem key with
              | .error e => (c, .error e)
              | .ok item => (c.append item, .ok ())
  | _ => S.appendSlot o c elem (payload.orKey key)

/-- A map or list without layers with a payload written under a key. -/
def writeItem (c : Node σ) (key : String) (payload : Payload σ) (mode : Mode) :
    Node σ × Except NavError Unit :=
  match c.container with
  | .map kind elem entries =>
      match Key.require key >>= fun _ => kind.decode key with
      | .error e => (c, .error e)
      | .ok k =>
          match Entries.get? k entries with
          | some v => c.putBack [.entry k] (S.setSlot o v payload)
          | none =>
              match S.setSlot o (S.zero elem) payload with
              | (v, .ok ()) => (c.putChild (.entry k) v, .ok ())
              | (_, .error e) => (c, .error e)
  | .list elem items => S.writeElement o c elem items key payload mode
  | .record type _ => (c, .error (.fieldNotFound "" type))
  | .fixed => (c, .error (.unsupported c.ty.name))
  | .leaf => (c, .error (.notContainer c.ty.name))

/-- The field that a key addresses for writing, and the qualifier text behind
its name. -/
def writableField (c : Node σ) (type : String) (fields : List (Field × Node σ)) (key : String) :
    Except NavError (Place σ × String) := do
  Key.require key
  let (name, rest) ← Key.splitField key
  let place ← c.fieldPlace o true type fields name
  return (place, rest)

/-- The container with a payload written into the child at a key.  Layers of the
container and of the child are allocated on the way. -/
def write (n : Node σ) (key : String) (payload : Payload σ) (mode : Mode) :
    Node σ × Except NavError Unit :=
  let n := S.allocate n
  let c := n.innermost
  n.putBack n.coreAddress <|
    match c.container with
    | .record type fields =>
        match writableField o c type fields key with
        | .error e => (c, .error e)
        | .ok (place, rest) =>
            c.putBack place.address <|
              if rest.isEmpty then S.setSlot o place.node payload
              else
                let child := S.allocate place.node
                child.putBack child.coreAddress
                  (S.writeItem o child.innermost rest payload .content)
    | _ => S.writeItem o c key payload mode

/-- The node with a literal written into the scalar or dynamic slot below its
layers. -/
def setLiteral (n : Node σ) (text : String) : Node σ × Except NavError Unit :=
  let n := S.allocate n
  let written : Except NavError (Node σ) :=
    match n.innermost with
    | .scalar slot => Node.setScalar slot (.text text)
    | .dynamic _ => .ok (.dynamic (.text text))
    | c => .error (c.refuses text .destinationNotScalar)
  match written with
  | .ok c => (n.replaceAt n.coreAddress c, .ok ())
  | .error e => (n, .error e)

end Schema

end TreeSync
