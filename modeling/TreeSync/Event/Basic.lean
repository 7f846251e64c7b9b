import TreeSync.Event.Action
import TreeSync.Event.Tag
import TreeSync.Json.Basic
import TreeSync.Path.Segments
import TreeSync.Text.Quoted

/-!
# Change events

An event is an action on the child under a key, below a path of keys.  An empty
path addresses children of the root, and an empty path with an empty key the
root itself.

Main definitions:

- `Event`, `Event.ofPath` and `Event.fullPath`.
- `Event.text`: the event as one line.
- `Event.toJson`: the event as a JSON object.
-/

namespace TreeSync

/-- A change event. -/
structure Event where
  /-- What happens to the child. -/
  action : Action
  /-- The keys that lead to the node holding the child. -/
  path : List String
  /-- The key of the child in that node. -/
  key : String
  /-- The type of the value. -/
  tag : Tag
  /-- The literal of the value. -/
  value : String
  /-- The tag of the node holding the child, when it is known. -/
  parentTag : Option Tag
  deriving DecidableEq, Repr

namespace Event

/-- The event whose path text ends in the key of the child.  The root path makes
a root event. -/
def ofPath (action : Action) (path : String) (tag : Tag) (value : String) :
    Except PathError Event := do
  let segments ← Path.parse path
  return ⟨action, segments.dropLast, segments.getLast?.getD "", tag, value, none⟩

/-- Whether the key is a member of a set rather than a map key. -/
def isSetMember (e : Event) : Bool :=
  e.parentTag == some .set

/-- Whether the event addresses the root itself. -/
def isRoot (e : Event) : Bool :=
  e.path.isEmpty && e.key.isEmpty

/-- The path text of the child. -/
def fullPath (e : Event) : String :=
  Path.render (if e.key.isEmpty then e.path else e.path ++ [e.key])

/-- The event as one line. -/
def text (e : Event) : String :=
  match e.action with
  | .delete => e.action.name ++ " " ++ e.fullPath
  | _ =>
      e.action.name ++ " " ++ e.fullPath ++ " (" ++ e.tag.text ++ ") = " ++ Quoted.encode e.value

/-- The event as a JSON object.  The parent tag is left out when it is not
known. -/
def toJson (e : Event) : Json :=
  .object <|
    [("op", .text e.action.name), ("path", .texts e.path), ("key", .text e.key),
      ("tag", .text e.tag.text), ("value", .text e.value)] ++
    match e.parentTag with
    | some tag => [("parent_tag", .text tag.text)]
    | none => []

end Event

end TreeSync
