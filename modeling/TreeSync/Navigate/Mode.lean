import TreeSync.Number.Integer
import TreeSync.Options.Basic
import TreeSync.Path.Key

/-!
# Reading the keys of a list

A list key may be a position, a description of an element's content, or stand
for the first or the last element.
-/

namespace TreeSync

/-- How a key addresses an element of a list. -/
inductive Mode where
  /-- Lists cannot be addressed. -/
  | none
  /-- The key is a position, counted from zero. -/
  | index
  /-- The key describes the element's content. -/
  | content
  /-- The first element. -/
  | first
  /-- The last element. -/
  | last
  deriving DecidableEq, Repr

namespace Mode

/-- The position that a key spells. -/
def position? (key : String) : Option Nat :=
  match Integer.read 0 (UInt64.size - 1) key.toList with
  | .ok n => some n.toNat
  | .error _ => Option.none

/-- The mode for a list key.  An empty key stands for the last element, a number
for a position unless options say otherwise, any other key for content. -/
def ofKey (o : Options) (key : String) : Mode :=
  if key.isEmpty then last
  else if Key.isStructured key then content
  else if !o.findByContent && (position? key).isSome then index
  else content

end Mode

end TreeSync
