import TreeSync.ErrorKind
import TreeSync.Path.Error
import TreeSync.Scalar.Error

/-!
# Failures of navigation

What can go wrong between a container, a key and the child it addresses.
-/

namespace TreeSync

/-- Why a key does not address anything in its container. -/
inductive KeyFault where
  /-- Only some list positions have an empty key. -/
  | emptyKey
  /-- The key is no position. -/
  | notAnIndex
  /-- The list was given no way to read its keys. -/
  | noMode
  /-- The key is no value of the map's key kind. -/
  | notAMapKey (cause : ConversionError)
  /-- A container element holds nothing that a key could spell. -/
  | notBuildable (typeName : String)
  deriving DecidableEq, Repr

namespace KeyFault

/-- The fault as a phrase. -/
def message : KeyFault → String
  | emptyKey => "an empty key cannot address this container"
  | notAnIndex => "expected a list index"
  | noMode => "a list needs a search mode"
  | notAMapKey cause => "map key: " ++ cause.message
  | notBuildable typeName => "cannot build a " ++ typeName ++ " from a key"

end KeyFault

/-- A failure of navigation or of a write at its end. -/
inductive NavError where
  /-- The record type has no such field. -/
  | fieldNotFound (field typeName : String)
  /-- No entry or element answers to the key. -/
  | entryNotFound (key : String)
  /-- A read came to an unallocated slot. -/
  | unallocated (typeName : String)
  /-- The field is read-only. -/
  | notSettable (field typeName : String)
  /-- A value does not fit its destination. -/
  | conversion (cause : ConversionError)
  /-- A leaf stands where a container is needed. -/
  | notContainer (typeName : String)
  /-- The container is of a kind that cannot be addressed. -/
  | unsupported (typeName : String)
  /-- The key does not address anything in this kind of container. -/
  | keyNotAddressable (key : String) (fault : KeyFault)
  /-- The key is malformed. -/
  | invalidKey (cause : PathError)
  /-- The walk came back to a container it had entered. -/
  | cycle (typeName : String)
  deriving DecidableEq, Repr

namespace NavError

/-- The failure as one line of text. -/
def message : NavError → String
  | fieldNotFound field typeName => "Field '" ++ field ++ "' not found in " ++ typeName
  | entryNotFound key => "Entry not found: " ++ key
  | unallocated typeName => "Value of type " ++ typeName ++ " is not allocated"
  | notSettable field typeName => "Field '" ++ field ++ "' of " ++ typeName ++ " is not settable"
  | conversion cause => cause.message
  | notContainer typeName => typeName ++ " is not a container"
  | unsupported typeName => "Unsupported container kind: " ++ typeName
  | keyNotAddressable key fault => "Key '" ++ key ++ "' is not addressable: " ++ fault.message
  | invalidKey cause => "Invalid key: " ++ cause.message
  | cycle typeName => "Structural cycle detected at " ++ typeName

/-- Whether the addressed value does not exist. -/
def isNotFound : NavError → Bool
  | fieldNotFound .. | entryNotFound _ | unallocated _ => true
  | _ => false

/-- Whether a value failed to convert. -/
def isTypeError : NavError → Bool
  | conversion _ | notContainer _ => true
  | _ => false

/-- Whether the same event can never succeed. -/
def isPermanent : NavError → Bool
  | unsupported _ | cycle _ => true
  | _ => false

/-- The field that the failure is about. -/
def field? : NavError → Option String
  | fieldNotFound field _ | notSettable field _ => some field
  | _ => none

/-- The key that the failure is about. -/
def key? : NavError → Option String
  | entryNotFound key | keyNotAddressable key _ => some key
  | _ => none

/-- The class of the failure. -/
def kind : NavError → ErrorKind
  | fieldNotFound .. => .fieldNotFound
  | entryNotFound _ | unallocated _ => .pathNotFound
  | notSettable .. => .notSettable
  | conversion _ | notContainer _ => .typeNotConvertible
  | unsupported _ => .unsupportedContainerKind
  | keyNotAddressable .. | invalidKey _ => .keyNotAddressable
  | cycle _ => .structuralCycle

end NavError

end TreeSync
