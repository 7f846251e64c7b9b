import TreeSync.Document.Basic
import TreeSync.Json.Printer
import TreeSync.Json.Reader

/-!
# Documents as text

The JSON text of a document and the document of a JSON text.
-/

namespace TreeSync

namespace Document

/-- The compact JSON text. -/
def compact (d : Document) : String :=
  d.toJson.compact

/-- The indented JSON text. -/
def pretty (d : Document) : String :=
  d.toJson.pretty

/-- The document that a JSON text spells. -/
def read? (text : String) : Option Document :=
  (Json.read text).map ofJson

end Document

end TreeSync
