import TreeSync.Event.Basic
import TreeSync.Json.Fault

/-!
# Reading events

An event is written as a JSON object, or as an array of its parts in a fixed
order.  All parts but the action may be missing.  Unknown members are ignored.

Main definition: `Event.ofJson`.
-/

namespace TreeSync

namespace Event

/-- The parts of an event read so far. -/
structure Parts where
  /-- The action, the one part that must be given. -/
  action : Option Action := none
  /-- The path. -/
  path : List String := []
  /-- The key. -/
  key : String := ""
  /-- The tag. -/
  tag : Tag := .default
  /-- The value. -/
  value : String := ""
  /-- The tag of the parent. -/
  parentTag : Option Tag := none

namespace Parts

/-- The names of the parts, in the order of the array form. -/
def names : List String :=
  ["op", "path", "key", "tag", "value", "parent_tag"]

/-- The parts with one of them read from a JSON value. -/
def read (parts : Parts) (name : String) (j : Json) : Except Json.Fault Parts :=
  if name = "op" then do
    let text ← j.toText
    match Action.parse text with
    | .ok action => return { parts with action := some action }
    | .error e => .error (.meaningless e.message)
  else if name = "path" then return { parts with path := ← j.toTexts }
  else if name = "key" then return { parts with key := ← j.toText }
  else if name = "tag" then return { parts with tag := .parse (← j.toText) }
  else if name = "value" then return { parts with value := ← j.toText }
  else if name = "parent_tag" then
    match j with
    | .null => return { parts with parentTag := none }
    | j => return { parts with parentTag := some (.parse (← j.toText)) }
  else return parts

/-- The parts with every given one read. -/
def readAll (parts : Parts) (given : List (String × Json)) : Except Json.Fault Parts :=
  given.foldlM (fun parts m => parts.read m.1 m.2) parts

/-- The event, when the action is known. -/
def toEvent (parts : Parts) : Except Json.Fault Event :=
  match parts.action with
  | some action =>
      .ok ⟨action, parts.path, parts.key, parts.tag, parts.value, parts.parentTag⟩
  | none => .error (.missing "op")

end Parts

/-- The event that a JSON value spells.  The members of an object are read in
the order in which they stand. -/
def ofJson (j : Json) : Except Json.Fault Event :=
  match j with
  | .object members => do
      let members ← Json.distinctMembers Parts.names members
      (← Parts.readAll {} members).toEvent
  | .array [] => .error (.invalidLength 0 "struct ChangeOp with 6 elements")
  | .array items => do
      let parts ← Parts.readAll {} (Parts.names.zip items)
      if Parts.names.length < items.length then
        .error (.invalidLength items.length "fewer elements in array")
      else parts.toEvent
  | j => .error (.invalidType j "struct ChangeOp")

end Event

end TreeSync
