import TreeSync.Event.Error
import TreeSync.Scalar.Convert

/-!
# Actions

What an event does to the child it addresses.
-/

namespace TreeSync

/-- What an event does to the addressed child. -/
inductive Action where
  /-- Make the child or overwrite it. -/
  | create
  /-- Overwrite the child or make it. -/
  | replace
  /-- Remove the child. -/
  | delete
  deriving DecidableEq, Repr

namespace Action

/-- The name of the action. -/
def name : Action → String
  | create => "create"
  | replace => "replace"
  | delete => "delete"

/-- The single-letter code of the action. -/
def code : Action → Char
  | create => 'c'
  | replace => 'r'
  | delete => 'd'

/-- Whether a text spells an action by name or code, in any case. -/
def isSpelled (action : Action) (text : String) : Bool :=
  Scalar.sameLetters text (String.ofList [action.code]) || Scalar.sameLetters text action.name

/-- The action that a text spells. -/
def parse (text : String) : Except SyncError Action :=
  if create.isSpelled text then .ok create
  else if replace.isSpelled text then .ok replace
  else if delete.isSpelled text then .ok delete
  else .error (.unknownOperation text)

end Action

end TreeSync
