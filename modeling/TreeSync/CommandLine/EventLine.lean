import TreeSync.Event.Wire
import TreeSync.Json.Reader
import TreeSync.Text.Blank

/-!
# Lines of an event stream

A stream holds one JSON value a line: an event, or a mark where a batch begins
or ends.  Blank lines and lines that start with a number sign say nothing.

Main definitions:

- `EventLine` and `EventLine.read`.
- `EventLine.split`: the lines of a text.
-/

namespace TreeSync

/-- What a line of an event stream says. -/
inductive EventLine where
  /-- A batch begins. -/
  | batchBegin
  /-- A batch ends. -/
  | batchEnd
  /-- An event. -/
  | event (event : Event)
  deriving DecidableEq, Repr

namespace EventLine

/-- The lines of a text.  A last line without a line break counts if it is not
empty. -/
def splitChars : List Char → List (List Char)
  | [] => []
  | c :: rest =>
      if c = '\n' then [] :: splitChars rest
      else
        match splitChars rest with
        | [] => [[c]]
        | line :: lines => (c :: line) :: lines

/-- The lines of a text without the blanks around them. -/
def split (text : String) : List String :=
  (splitChars text.toList).map fun line => String.ofList (Blank.trim line)

/-- Whether a line says nothing. -/
def isSilent (line : String) : Bool :=
  line.isEmpty || line.toList.head? == some '#'

/-- The mark that a name stands for. -/
def markNamed? (name : String) : Option EventLine :=
  if name = "begin" then some batchBegin
  else if name = "end" then some batchEnd
  else none

/-- The mark that a JSON value stands for: its name, or an object with its name
and a null. -/
def markOf? : Json → Option EventLine
  | .text name => markNamed? name
  | .object [(name, .null)] => markNamed? name
  | _ => none

/-- The mark that a line is.  It is the one member `batch` of an object. -/
def mark? : Json → Option EventLine
  | .object members =>
      match members.filter fun m => m.1 == "batch" with
      | [(_, value)] => markOf? value
      | _ => none
  | _ => none

/-- What a JSON value says. -/
def ofJson (j : Json) : Except Json.Fault EventLine :=
  match mark? j with
  | some mark => .ok mark
  | none => event <$> Event.ofJson j

/-- What a line that is not silent says, or why it says nothing. -/
def read (line : String) : Except String EventLine :=
  match Json.read line with
  | none => .error "malformed JSON"
  | some j => (ofJson j).mapError Json.Fault.message

end EventLine

end TreeSync
