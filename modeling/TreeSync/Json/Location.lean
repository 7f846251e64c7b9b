import TreeSync.Json.Fault
import TreeSync.Json.Reader

/-!
# Places in a JSON text

A value of the wrong form is reported with the place where it was noticed: a
leaf behind itself, a container in front of itself, and a repeated member behind
its name.

Main definitions:

- `TextPlace`: a line and a column.
- `Json.Part` and `Json.parts`: the members or items of a text with what stands
  behind them.
- `Json.Fault.left`: what is left of the text when a fault is noticed.
-/

namespace TreeSync

/-- A place in a text. -/
structure TextPlace where
  /-- The number of the line, counted from one. -/
  line : Nat
  /-- The number of bytes in front of the place on its line. -/
  column : Nat
  deriving DecidableEq, Repr

namespace TextPlace

/-- The start of a text. -/
def start : TextPlace := ⟨1, 0⟩

/-- The place behind one more character. -/
def advance (place : TextPlace) (c : Char) : TextPlace :=
  if c = '\n' then ⟨place.line + 1, 0⟩ else ⟨place.line, place.column + c.utf8Size⟩

/-- The place where `left` begins at the end of a text. -/
def ofLeft (text left : List Char) : TextPlace :=
  (text.take (text.length - left.length)).foldl advance start

/-- The place as a phrase. -/
def phrase (place : TextPlace) : String :=
  "line " ++ toString place.line ++ " column " ++ toString place.column

end TextPlace

namespace Json

/-- A member or an item as it stands in the text of its container. -/
structure Part where
  /-- The name of a member; items have none. -/
  name : String
  /-- The value. -/
  value : Json
  /-- The text behind the name. -/
  behindName : List Char
  /-- The text from the value on. -/
  fromValue : List Char
  /-- The text behind the value. -/
  behindValue : List Char

/-- The part whose value stands at the start of a text, but for blanks. -/
def readPart (name : String) (behindName input : List Char) : Option Part :=
  let fromValue := skipBlanks input
  (readValue (2 * fromValue.length + 2) fromValue).map fun r =>
    ⟨name, r.1, behindName, fromValue, r.2⟩

/-- The items at the start of a text, as far as it can be read. -/
def itemParts : Nat → List Char → List Part
  | 0, _ => []
  | fuel + 1, input =>
      match readPart "" input input with
      | none => []
      | some part =>
          match skipBlanks part.behindValue with
          | ',' :: rest => part :: itemParts fuel rest
          | _ => [part]

/-- The members at the start of a text, as far as it can be read. -/
def memberParts : Nat → List Char → List Part
  | 0, _ => []
  | fuel + 1, input =>
      match skipBlanks input with
      | '\x22' :: rest =>
          match readString rest with
          | none => []
          | some (name, behind) =>
              let behindName := skipBlanks behind
              match readPart (String.ofList name) behindName (behindName.drop 1) with
              | none => []
              | some part =>
                  match skipBlanks part.behindValue with
                  | ',' :: rest => part :: memberParts fuel rest
                  | _ => [part]
      | _ => []

/-- The parts of the container that a text is.  A text that is no container is
its own only part. -/
def parts (input : List Char) : List Part :=
  match skipBlanks input with
  | '[' :: rest => itemParts input.length rest
  | '\x7b' :: rest => memberParts input.length rest
  | rest => (readPart "" rest rest).toList

/-- A container of the form of `whole` with other parts. -/
def withParts (whole : Json) (parts : List Part) : Json :=
  match whole with
  | array _ => array (parts.map Part.value)
  | object _ => object (parts.map fun part => (part.name, part.value))
  | leaf => leaf

namespace Fault

/-- What is left of the text when a fault is noticed at a part. -/
def left (fault : Fault) (part : Part) : List Char :=
  match fault with
  | .repeated _ => part.behindName
  | .invalidType (.array _) _ | .invalidType (.object _) _ => part.fromValue
  | _ => part.behindValue

end Fault

/-- What reading a text gives, with the fault of its first faulty part as a
message that ends in the place. -/
def locate {α : Type} (read : Json → Except Fault α) (whole : Json) (input : List Char) :
    Except String α :=
  match read whole with
  | .ok a => .ok a
  | .error fault =>
      let parts := parts input
      let firstFault := (List.range parts.length).findSome? fun i =>
        match parts[i]?, read (whole.withParts (parts.take (i + 1))) with
        | some part, .error fault => some (fault, fault.left part)
        | _, _ => none
      let (fault, left) := firstFault.getD (fault, [])
      .error (fault.message ++ " at " ++ (TextPlace.ofLeft input left).phrase)

end Json

end TreeSync
