import TreeSync.Navigate.Error
import TreeSync.Node.Container
import TreeSync.Options.Basic
import TreeSync.Path.Key

/-!
# Record fields by key

A key names a field by its name, then by its name regardless of case, then by
its second name.  Text in brackets behind the name addresses what the field
holds.

Main definitions:

- `Field.index?`: the position of the field that a name stands for.
- `Node.fieldPlace`: the field of a record, for reading or writing.
- `Key.splitField`: the name in a key and the qualifier text behind it.
-/

namespace TreeSync

namespace Field

/-- A character for comparison regardless of case. -/
def fold (c : Char) : Char :=
  if c = '-' then '_' else c.toLower

/-- Whether two names are equal regardless of case. -/
def loosely (a b : String) : Bool :=
  a.toList.map fold == b.toList.map fold

/-- The position of the field that a name stands for. -/
def index? (o : Options) (name : String) (fields : List Field) : Option Nat :=
  match fields.findIdx? fun f => f.name == name with
  | some i => some i
  | none =>
      match if o.ignoreCase then fields.findIdx? fun f => loosely f.name name else none with
      | some i => some i
      | none => if o.secondNames then fields.findIdx? fun f => f.secondName == some name else none

end Field

namespace Key

/-- The field name in a key and the qualifier text behind it, which is empty
when there is none. -/
def splitField (key : String) : Except NavError (String × String) :=
  if isStructured key then
    match split key with
    | .ok parts => .ok parts
    | .error e => .error (.invalidKey e)
  else .ok (key, "")

/-- Refuse the empty key. -/
def require (key : String) : Except NavError Unit :=
  if key.isEmpty then .error (.keyNotAddressable key .emptyKey) else .ok ()

end Key

namespace Node

variable {σ : Type}

/-- The place of a field of the record `n` of a type.  A field that is the
record around it is found at the record's own place.  To `write`, the field must
be writable. -/
def fieldPlace (o : Options) (write : Bool) (n : Node σ) (type : String)
    (fields : List (Field × Node σ)) (name : String) : Except NavError (Place σ) :=
  match Field.index? o name (fields.map Prod.fst) with
  | none => .error (.fieldNotFound name type)
  | some i =>
      match fields[i]? with
      | none => .error (.fieldNotFound name type)
      | some (f, child) =>
          if write && !f.writable then .error (.notSettable f.name type)
          else
            match child with
            | enclosing _ => .ok ⟨[], n⟩
            | child => .ok ⟨[.field i], child⟩

/-- The field of a record that a name stands for, without its layers. -/
def namedField? (o : Options) (name : String) (n : Node σ) : Option (Node σ) :=
  match n.core? with
  | none => none
  | some c =>
      match c.container with
      | .record type fields => (c.fieldPlace o false type fields name).toOption.map Place.node
      | .map .. => c.entry? name
      | _ => none

end Node

end TreeSync
