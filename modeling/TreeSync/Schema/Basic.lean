import TreeSync.Node.Address
import TreeSync.Schema.Override

/-!
# Schemas

A schema says what the record types of a target are: their fields with the
values of a new record, the state of a new record, and what they take over.

Main definitions:

- `RecordDef`, `Schema` and `Schema.find?`.
- `Schema.zero`: the value of a new node of a type.
- `Schema.allocate`: a node with every layer around its core filled.
-/

namespace TreeSync

/-- The declaration of a record type. -/
structure RecordDef (σ : Type) where
  /-- The name of the type. -/
  name : String
  /-- The fields with their values in a new record. -/
  fields : List (Field × Node σ)
  /-- The state of a new record. -/
  state : σ
  /-- The override that a record exposes; being asked may change its state. -/
  query : σ → σ × Option (Override σ) := fun s => (s, none)
  /-- What a record at the root does around batches. -/
  bounds : Option (Bounds σ) := none

namespace RecordDef

/-- A new record. -/
def zero {σ : Type} (d : RecordDef σ) : Node σ :=
  .record d.name d.fields d.state

end RecordDef

/-- The record types of a target. -/
structure Schema (σ : Type) where
  /-- The declarations. -/
  records : List (RecordDef σ)
  /-- The state of a record without a declaration. -/
  blank : σ

namespace Schema

variable {σ : Type} (S : Schema σ)

/-- The schema without record types. -/
def empty (blank : σ) : Schema σ :=
  { records := [], blank := blank }

/-- The declaration of a record type. -/
def find? (name : String) : Option (RecordDef σ) :=
  S.records.find? fun d => d.name == name

/-! ## New values -/

/-- The value of a new node of a type.  A record type without a declaration has
no fields. -/
def zero : Ty → Node σ
  | .scalar k => .scalar (Slot.zero k)
  | .option t => .absent t
  | .box t => .boxed (zero t)
  | .list t => .list t []
  | .map order key t => .map order key t []
  | .array t n => .array t (List.replicate n (zero t))
  | .dynamic => .dynamic .null
  | .record name =>
      match S.find? name with
      | some d => d.zero
      | none => .record name [] S.blank

/-- A new node of a type whose layers all have a value. -/
def filled : Ty → Node σ
  | .option t => .present (filled t)
  | .box t => .boxed (filled t)
  | t => S.zero t

/-- The node with every empty layer around its core filled by a new value. -/
def allocate : Node σ → Node σ
  | .absent t => .present (S.filled t)
  | .present v => .present (allocate v)
  | .boxed v => .boxed (allocate v)
  | n => n

/-- The node as it would be when new. -/
def reset (n : Node σ) : Node σ :=
  S.zero n.ty

/-! ## Declaring -/

/-- The schema with one more record type, whose new records have new values in
all fields. -/
def declare (name : String) (fields : List (Field × Ty)) (state : σ)
    (query : σ → σ × Option (Override σ) := fun s => (s, none))
    (bounds : Option (Bounds σ) := none) : Schema σ :=
  { S with
    records := S.records ++
      [{ name := name
         fields := fields.map fun f => (f.1, S.zero f.2)
         state := state
         query := query
         bounds := bounds }] }

/-! ## Laws -/

/-- A declaration is found under its own name. -/
theorem name_of_find? {name : String} {d : RecordDef σ} (h : S.find? name = some d) :
    d.name = name := by
  simpa using List.find?_some h

/-- A new node with filled layers has a core. -/
theorem isAllocated_filled (t : Ty) : (S.filled t).isAllocated := by
  induction t with
  | option t ih => simpa [filled, Node.isAllocated, Node.core?, Node.core] using ih
  | box t ih => simpa [filled, Node.isAllocated, Node.core?, Node.core] using ih
  | record name =>
      simp only [filled, zero]
      cases S.find? name <;> rfl
  | scalar | list | map | array | dynamic => rfl

/-- An allocated node has a core. -/
theorem isAllocated_allocate (n : Node σ) : (S.allocate n).isAllocated := by
  induction n using allocate.induct with
  | case1 t => simpa [allocate, Node.isAllocated, Node.core?, Node.core]
      using S.isAllocated_filled t
  | case2 v ih => simpa [allocate, Node.isAllocated, Node.core?, Node.core] using ih
  | case3 v ih => simpa [allocate, Node.isAllocated, Node.core?, Node.core] using ih
  | case4 n h1 h2 h3 =>
      cases n <;> simp_all [allocate, Node.isAllocated, Node.core?, Node.core] <;> rfl

/-- A node whose layers all have a value stays as it is. -/
theorem allocate_of_isAllocated {n : Node σ} (h : n.isAllocated) : S.allocate n = n := by
  induction n using allocate.induct with
  | case1 t => simp [Node.isAllocated, Node.core?, Node.core, Except.toOption] at h
  | case2 v ih => rw [allocate, ih (by simpa [Node.isAllocated, Node.core?, Node.core] using h)]
  | case3 v ih => rw [allocate, ih (by simpa [Node.isAllocated, Node.core?, Node.core] using h)]
  | case4 n h1 h2 h3 => cases n <;> simp_all [allocate]

end Schema

end TreeSync
