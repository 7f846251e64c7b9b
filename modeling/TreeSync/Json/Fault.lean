import TreeSync.Json.Printer
import TreeSync.Text.Quoted

/-!
# JSON of the wrong form

Why a JSON value is not the form of a wanted type.
-/

namespace TreeSync

namespace Json

/-- A value as it is named in a message. -/
def describe : Json → String
  | null => "null"
  | bool b => "boolean `" ++ (if b then "true" else "false") ++ "`"
  | int n => "integer `" ++ Integer.text n ++ "`"
  | float x => "floating point `" ++ String.ofList (floatText x) ++ "`"
  | text s => "string " ++ Quoted.encode s
  | array _ => "sequence"
  | object _ => "map"

/-- Why a value does not have a wanted form. -/
inductive Fault where
  /-- The value has another type. -/
  | invalidType (found : Json) (expected : String)
  /-- The array has a wrong number of items. -/
  | invalidLength (length : Nat) (expected : String)
  /-- A required member is missing. -/
  | missing (name : String)
  /-- A member stands twice. -/
  | repeated (name : String)
  /-- The value has the right type but means nothing. -/
  | meaningless (message : String)

namespace Fault

/-- The fault as one line of text. -/
def message : Fault → String
  | invalidType found expected => "invalid type: " ++ found.describe ++ ", expected " ++ expected
  | invalidLength length expected =>
      "invalid length " ++ toString length ++ ", expected " ++ expected
  | missing name => "missing field `" ++ name ++ "`"
  | repeated name => "duplicate field `" ++ name ++ "`"
  | meaningless message => message

end Fault

/-- A string. -/
def toText : Json → Except Fault String
  | text s => .ok s
  | j => .error (.invalidType j "a string")

/-- An array of strings. -/
def toTexts : Json → Except Fault (List String)
  | array items => items.mapM toText
  | j => .error (.invalidType j "a sequence")

/-- A truth value. -/
def toBool : Json → Except Fault Bool
  | bool b => .ok b
  | j => .error (.invalidType j "a boolean")

/-- The first name that stands twice among members, of the names that count. -/
def firstRepeated? (names : List String) : List (String × Json) → Option String
  | [] => none
  | (name, _) :: rest =>
      if names.contains name && rest.any fun m => m.1 == name then some name
      else firstRepeated? names rest

/-- The members of an object, none of the given names standing twice. -/
def distinctMembers (names : List String) (members : List (String × Json)) :
    Except Fault (List (String × Json)) :=
  match firstRepeated? names members with
  | some name => .error (.repeated name)
  | none => .ok members

end Json

end TreeSync
