import TreeSync.Node.Container
import TreeSync.Text.Quoted

/-!
# One-line text of a node

Records and maps are written in braces and lists in brackets; texts are quoted,
every other scalar is bare, and what has no value is `null`.  A fixed array
shows nothing but the type of the slot it stands in.

Main definition: `Node.debugText`.
-/

namespace TreeSync

/-- Texts with a separator between them. -/
def joinTexts (separator : String) : List String → String
  | [] => ""
  | [t] => t
  | t :: rest => t ++ separator ++ joinTexts separator rest

/-- A name and a value as one member of a text in braces. -/
def memberText (name value : String) : String :=
  name ++ ": " ++ value

namespace Scalar

/-- The text of a scalar: texts are quoted. -/
def debugText : Scalar → String
  | text s => Quoted.encode s
  | s => s.literal

end Scalar

namespace Document

mutual

/-- The one-line text of a document. -/
def debugText : Document → String
  | seq items => "[" ++ joinTexts ", " (debugItems items) ++ "]"
  | map entries => "\x7b" ++ joinTexts ", " (debugEntries entries) ++ "\x7d"
  | null => "null"
  | bool v => (Scalar.bool v).debugText
  | int v => (Scalar.int v).debugText
  | float v => (Scalar.float v).debugText
  | text v => (Scalar.text v).debugText

/-- The text of every item. -/
def debugItems : List Document → List String
  | [] => []
  | item :: rest => item.debugText :: debugItems rest

/-- The text of every entry. -/
def debugEntries : List (String × Document) → List String
  | [] => []
  | (key, value) :: rest => memberText key value.debugText :: debugEntries rest

end

end Document

namespace Node

variable {σ : Type}

/-- Whether a fixed array stands below the layers. -/
def holdsArray (n : Node σ) : Bool :=
  match n.core? with
  | some (array ..) => true
  | _ => false

/-- The text of a value that shows nothing but its type. -/
def typeText (t : Ty) : String :=
  "<" ++ t.name ++ ">"

mutual

/-- The one-line text of a node. -/
def debugText : Node σ → String
  | absent _ => "null"
  | present v => if v.holdsArray then typeText (.option v.ty) else v.debugText
  | boxed v => if v.holdsArray then typeText (.box v.ty) else v.debugText
  | scalar slot => slot.get.debugText
  | dynamic d => d.debugText
  | record _ fields _ => "\x7b" ++ joinTexts ", " (debugFields fields) ++ "\x7d"
  | map _ _ _ entries => "\x7b" ++ joinTexts ", " (debugEntries entries) ++ "\x7d"
  | list _ items => "[" ++ joinTexts ", " (debugItems items) ++ "]"
  | array elem items => typeText (.array elem items.length)
  | enclosing type => typeText (.record type)

/-- The text of every field. -/
def debugFields : List (Field × Node σ) → List String
  | [] => []
  | (f, value) :: rest => memberText f.name value.debugText :: debugFields rest

/-- The text of every entry. -/
def debugEntries : List (MapKey × Node σ) → List String
  | [] => []
  | (key, value) :: rest => memberText key.literal value.debugText :: debugEntries rest

/-- The text of every item. -/
def debugItems : List (Node σ) → List String
  | [] => []
  | item :: rest => item.debugText :: debugItems rest

end

end Node

end TreeSync
