import TreeSync.Navigate.Write

/-!
# Direct access to maps and lists

The operations of typed maps and lists themselves.  A map takes any key literal
that its key kind can read, and values go in only if they have the type of the
map's values or the list's elements.

Main definitions:

- `Node.keyLiterals` and `Node.entryCount`.
- `Node.getEntry`, `Schema.getOrInsert`, `Node.insertEntry` and
  `Node.removeEntry`.
- `Node.push` and `Node.removeAt`.
-/

namespace TreeSync

namespace Node

variable {σ : Type}

/-- Refuse a value that is not of a type. -/
def requireType (elem : Ty) (value : Node σ) : Except NavError Unit :=
  if value.ty = elem then .ok ()
  else .error (.conversion (.mismatch value.ty.name elem.name .typeDiffers))

/-- A node replaced by a value of its own type. -/
def replaceBy (n value : Node σ) : Except NavError (Node σ) := do
  requireType n.ty value
  return value

/-! ## Maps -/

/-- The literals of the keys of a map, in order. -/
def keyLiterals : Node σ → List String
  | map _ _ _ entries => (Entries.keys entries).map MapKey.literal
  | _ => []

/-- The number of entries of a map. -/
def entryCount : Node σ → Nat
  | map _ _ _ entries => entries.length
  | _ => 0

/-- The entry of a map under a key literal. -/
def getEntry (n : Node σ) (literal : String) : Except NavError (Option (Place σ)) :=
  match n with
  | map _ key _ entries => do
      let k ← key.decode literal
      return (Entries.get? k entries).map (Place.mk [.entry k])
  | n => .error (.notContainer n.ty.name)

/-- A map with a value stored under a key literal. -/
def insertEntry (n : Node σ) (literal : String) (value : Node σ) : Except NavError (Node σ) :=
  match n with
  | map order key elem entries => do
      let k ← key.decode literal
      requireType elem value
      return map order key elem (Entries.put order.before k value entries)
  | n => .error (.notContainer n.ty.name)

/-- A map without the entry under a key literal, and whether there was one. -/
def removeEntry (n : Node σ) (literal : String) : Except NavError (Node σ × Bool) :=
  match n with
  | map order key elem entries => do
      let k ← key.decode literal
      return (map order key elem (Entries.erase k entries), (Entries.get? k entries).isSome)
  | n => .error (.notContainer n.ty.name)

/-! ## Lists -/

/-- A list with one more element behind the others. -/
def push (n : Node σ) (value : Node σ) : Except NavError (Node σ) :=
  match n with
  | list elem items => do
      requireType elem value
      return list elem (items ++ [value])
  | n => .error (.notContainer n.ty.name)

/-- A list without the element at a position. -/
def removeAt (n : Node σ) (index : Nat) : Except NavError (Node σ) :=
  match n with
  | list elem items =>
      if index < items.length then .ok (list elem (items.eraseIdx index))
      else .error (.entryNotFound (toString index))
  | n => .error (.notContainer n.ty.name)

end Node

namespace Schema

variable {σ : Type} (S : Schema σ)

/-- A map with an entry under a key literal, a new one if there was none, and
the place of that entry. -/
def getOrInsert (n : Node σ) (literal : String) : Except NavError (Node σ × Place σ) :=
  match n with
  | .map order key elem entries => do
      let k ← key.decode literal
      match Entries.get? k entries with
      | some v => return (n, ⟨[.entry k], v⟩)
      | none =>
          return (.map order key elem (Entries.put order.before k (S.zero elem) entries),
            ⟨[.entry k], S.zero elem⟩)
  | n => .error (.notContainer n.ty.name)

end Schema

end TreeSync
