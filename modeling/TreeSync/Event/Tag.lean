import TreeSync.Document.Basic
import TreeSync.Number.FloatLiteral
import TreeSync.Scalar.Convert

/-!
# Type tags

An event carries the type of its value as a tag in YAML core schema spelling.
Map-like and sequence tags announce a container; every other tag is a scalar tag
and decides the variant that a dynamic slot stores.

Main definitions:

- `Tag`, `ScalarTag` and `Shape`.
- `Tag.parse` and `Tag.text`.
- `Tag.document`: what a dynamic slot receives for a literal.
-/

namespace TreeSync

/-- The shape of a container. -/
inductive Shape where
  /-- A map. -/
  | map
  /-- A sequence. -/
  | seq
  deriving DecidableEq, Repr

namespace Shape

/-- The name of the shape. -/
def name : Shape → String
  | map => "Map"
  | seq => "Seq"

end Shape

/-- The subtype of a scalar tag. -/
inductive ScalarTag where
  /-- Text. -/
  | str
  /-- An integer. -/
  | int
  /-- A floating-point number. -/
  | float
  /-- A truth value. -/
  | bool
  /-- The null value. -/
  | null
  /-- Any other tag, kept as spelled; its values are text. -/
  | other (tag : String)
  deriving DecidableEq, Repr

namespace ScalarTag

/-- The leaf that a literal stands for.  A literal that is none of the tagged
type is kept as text. -/
def document (tag : ScalarTag) (literal : String) : Document :=
  match tag with
  | int =>
      match Integer.read IntKind.i64.lo IntKind.i64.hi literal.toList with
      | .ok n => .int (Int64.ofInt n)
      | .error _ => .text literal
  | float =>
      match FloatLiteral.read? literal.toList with
      | some x => .float x
      | none => .text literal
  | bool =>
      if Scalar.sameLetters literal "true" then .bool true
      else if Scalar.sameLetters literal "false" then .bool false
      else .text literal
  | null => .null
  | str | other _ => .text literal

end ScalarTag

/-- The type tag of an event. -/
inductive Tag where
  /-- A map. -/
  | map
  /-- An ordered map. -/
  | omap
  /-- A map in insertion order. -/
  | imap
  /-- A set: its members are keys without values. -/
  | set
  /-- A sequence. -/
  | seq
  /-- A scalar. -/
  | scalar (tag : ScalarTag)
  deriving DecidableEq, Repr

namespace Tag

/-- The tag of a value without one: text. -/
def default : Tag := scalar .str

/-- The spelling of the long form in front of the tag's name. -/
def longForm : String := "tag:yaml.org,2002:"

/-- The text behind a leading text. -/
def behind? (lead text : List Char) : Option (List Char) :=
  if text.take lead.length = lead then some (text.drop lead.length) else none

/-- The name of a tag without its short or long marker. -/
def bareName (tag : String) : String :=
  match behind? "!!".toList tag.toList with
  | some rest => String.ofList rest
  | none =>
      match behind? longForm.toList tag.toList with
      | some rest => String.ofList rest
      | none => tag

/-- The tag that a text spells.  An empty text is the text tag, an unknown name
a scalar tag of its own. -/
def parse (tag : String) : Tag :=
  let name := bareName tag
  if name = "map" then map
  else if name = "omap" then omap
  else if name = "imap" then imap
  else if name = "set" then set
  else if name = "seq" then seq
  else if name = "" ∨ name = "str" then scalar .str
  else if name = "int" then scalar .int
  else if name = "float" then scalar .float
  else if name = "bool" then scalar .bool
  else if name = "null" then scalar .null
  else scalar (.other tag)

/-- The spelling of a tag. -/
def text : Tag → String
  | map => "!!map"
  | omap => "!!omap"
  | imap => "!!imap"
  | set => "!!set"
  | seq => "!!seq"
  | scalar .str => "!!str"
  | scalar .int => "!!int"
  | scalar .float => "!!float"
  | scalar .bool => "!!bool"
  | scalar .null => "!!null"
  | scalar (.other tag) => tag

/-- The shape of a container tag. -/
def shape? : Tag → Option Shape
  | map | omap | imap | set => some .map
  | seq => some .seq
  | scalar _ => none

/-- What a dynamic slot receives for a literal under this tag. -/
def document (tag : Tag) (literal : String) : Document :=
  match tag with
  | scalar t => t.document literal
  | seq => .seq []
  | map | omap | imap | set => .map []

end Tag

end TreeSync
