import TreeSync.Node.Container

/-!
# Structural equality

Two nodes are equal when their contents are, whatever layers stand around them
and whether they are typed or documents.  Scalars compare by their canonical
literals, records of one type field by field, lists item by item, and maps by
looking up the keys of the first one in the second one.

Main definition: `Node.same`.
-/

namespace TreeSync

namespace Document

variable {σ : Type}

/-- The canonical literal of a leaf. -/
def literal? (d : Document) : Option String :=
  d.scalar?.map Scalar.literal

mutual

/-- Whether a document equals the content of a node. -/
def same : Document → Node σ → Bool
  | seq items, b =>
      match b.core?.map Node.container with
      | some (.list _ others) => items.length == others.length && sameItems items others
      | _ => false
  | map entries, b =>
      match b.core? with
      | some c =>
          match c.container with
          | .map _ _ others => entries.length == others.length && sameEntries entries c
          | _ => false
      | none => false
  | null, b =>
      match b.core? with
      | some (.dynamic .null) => true
      | _ => false
  | bool v, b => b.literal? == some (Scalar.bool v).literal
  | int v, b => b.literal? == some (Scalar.int v).literal
  | float v, b => b.literal? == some (Scalar.float v).literal
  | text v, b => b.literal? == some v

/-- Whether documents equal nodes position by position. -/
def sameItems : List Document → List (Node σ) → Bool
  | [], _ => true
  | x :: xs, y :: ys => x.same y && sameItems xs ys
  | _ :: _, [] => false

/-- Whether every entry equals the one that a map holds under its key. -/
def sameEntries : List (String × Document) → Node σ → Bool
  | [], _ => true
  | (key, x) :: rest, b =>
      (match b.entry? key with
        | some y => x.same y
        | none => false) && sameEntries rest b

end

end Document

namespace Node

variable {σ : Type}

mutual

/-- Whether two nodes have equal contents. -/
def same : Node σ → Node σ → Bool
  | absent _, b => !b.isAllocated
  | present a, b => a.same b
  | boxed a, b => a.same b
  | scalar slot, b => b.literal? == some slot.literal
  | dynamic d, b => d.same b
  | record type fields _, b =>
      match b.core? with
      | some (record other others _) => type == other && sameFields fields others
      | _ => false
  | list _ items, b =>
      match b.core?.map container with
      | some (.list _ others) => items.length == others.length && sameItems items others
      | _ => false
  | map _ _ _ entries, b =>
      match b.core? with
      | some c =>
          match c.container with
          | .map _ _ others => entries.length == others.length && sameEntries entries c
          | _ => false
      | none => false
  | array .., _ => false
  | enclosing _, _ => false

/-- Whether fields are equal position by position. -/
def sameFields : List (Field × Node σ) → List (Field × Node σ) → Bool
  | [], _ => true
  | (_, x) :: xs, (_, y) :: ys => x.same y && sameFields xs ys
  | _ :: _, [] => false

/-- Whether nodes are equal position by position. -/
def sameItems : List (Node σ) → List (Node σ) → Bool
  | [], _ => true
  | x :: xs, y :: ys => x.same y && sameItems xs ys
  | _ :: _, [] => false

/-- Whether every entry equals the one that a map holds under its key. -/
def sameEntries : List (MapKey × Node σ) → Node σ → Bool
  | [], _ => true
  | (key, x) :: rest, b =>
      (match b.entry? key.literal with
        | some y => x.same y
        | none => false) && sameEntries rest b

end

end Node

end TreeSync
