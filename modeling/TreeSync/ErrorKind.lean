/-!
# Kinds of failure

The classes into which every failure of an event falls.
-/

namespace TreeSync

/-- The class of a failure. -/
inductive ErrorKind where
  /-- A path segment or list entry did not resolve. -/
  | pathNotFound
  /-- A record has no field of the name. -/
  | fieldNotFound
  /-- A field cannot be written. -/
  | notSettable
  /-- A value does not fit its destination. -/
  | typeNotConvertible
  /-- Events cannot address containers of this kind. -/
  | unsupportedContainerKind
  /-- A key is empty or malformed for its container. -/
  | keyNotAddressable
  /-- The operation is not create, replace or delete. -/
  | unknownOperation
  /-- The walk came back to a container it had entered. -/
  | structuralCycle
  /-- The path text is malformed. -/
  | invalidPath
  /-- An override refused the event. -/
  | rejected
  /-- Batch boundaries were misused. -/
  | batch
  deriving DecidableEq, Repr

namespace ErrorKind

/-- The name of the class. -/
def name : ErrorKind → String
  | pathNotFound => "PathNotFound"
  | fieldNotFound => "FieldNotFound"
  | notSettable => "NotSettable"
  | typeNotConvertible => "TypeNotConvertible"
  | unsupportedContainerKind => "UnsupportedContainerKind"
  | keyNotAddressable => "KeyNotAddressable"
  | unknownOperation => "UnknownOperation"
  | structuralCycle => "StructuralCycle"
  | invalidPath => "InvalidPath"
  | rejected => "Rejected"
  | batch => "Batch"

end ErrorKind

end TreeSync
