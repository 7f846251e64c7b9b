import TreeSync.Entries

/-!
# JSON values

The data behind a JSON text.  Members keep the order of the text and may repeat
a name; `Json.sorted` gives the reading in which members are ordered by name and
the last of equal names counts.
-/

namespace TreeSync

/-- A JSON value.  A number without fraction or exponent that fits 64 bits is an
integer, any other number is a floating-point number. -/
inductive Json where
  /-- The null value. -/
  | null
  /-- A truth value. -/
  | bool (value : Bool)
  /-- An integer. -/
  | int (value : Int)
  /-- A floating-point number. -/
  | float (value : Float)
  /-- A string. -/
  | text (value : String)
  /-- An array. -/
  | array (items : List Json)
  /-- An object. -/
  | object (members : List (String × Json))

namespace Json

instance : Inhabited Json := ⟨null⟩

/-- The order of member names: by code points. -/
def nameBefore (a b : String) : Bool :=
  decide (a < b)

mutual

/-- The value with the members of every object sorted by name, the last of
equal names kept. -/
def sorted : Json → Json
  | array items => array (sortedItems items)
  | object members => object (sortedMembers [] members)
  | null => null
  | bool b => bool b
  | int n => int n
  | float x => float x
  | text s => text s

/-- Every item sorted. -/
def sortedItems : List Json → List Json
  | [] => []
  | item :: rest => item.sorted :: sortedItems rest

/-- The members put in order behind the ones already sorted. -/
def sortedMembers (done : List (String × Json)) : List (String × Json) → List (String × Json)
  | [] => done
  | (name, value) :: rest => sortedMembers (Entries.put nameBefore name value.sorted done) rest

end

/-- The member of an object with a given name. -/
def member? (name : String) : Json → Option Json
  | object members => Entries.get? name members
  | _ => none

/-- An array of strings. -/
def texts (items : List String) : Json :=
  array (items.map text)

end Json

end TreeSync
