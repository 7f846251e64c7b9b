import TreeSync.Navigate.Error

/-!
# Failures of events

Why an event, a batch boundary or a reader of events failed, and the one type
that covers every failure of the library.
-/

namespace TreeSync

/-- A failure of an event or of a batch boundary. -/
inductive SyncError where
  /-- A path segment did not resolve. -/
  | pathNotFound (segment : String) (cause : NavError)
  /-- Navigation or conversion failed at the leaf. -/
  | navigation (cause : NavError)
  /-- The path text is malformed. -/
  | path (cause : PathError)
  /-- The operation is not create, replace or delete. -/
  | unknownOperation (text : String)
  /-- An override refused the event. -/
  | rejected (reason : String)
  /-- A batch was begun inside a batch. -/
  | batchInProgress
  /-- A batch was ended outside of any. -/
  | noBatchInProgress
  deriving DecidableEq, Repr

namespace SyncError

/-- The failure as one line of text. -/
def message : SyncError → String
  | pathNotFound segment cause =>
      "Path segment '" ++ segment ++ "' not resolved: " ++ cause.message
  | navigation cause => cause.message
  | path cause => cause.message
  | unknownOperation text => "Unknown operation: " ++ text
  | rejected reason => "Update rejected: " ++ reason
  | batchInProgress => "A batch is already in progress"
  | noBatchInProgress => "No batch in progress"

/-- Whether some part of the path does not exist. -/
def isNotFound : SyncError → Bool
  | pathNotFound .. => true
  | navigation cause => cause.isNotFound
  | _ => false

/-- Whether a value failed to convert. -/
def isTypeError : SyncError → Bool
  | navigation cause => cause.isTypeError
  | pathNotFound _ cause => cause.isTypeError
  | _ => false

/-- Whether the same event can never succeed. -/
def isPermanent : SyncError → Bool
  | navigation cause | pathNotFound _ cause => cause.isPermanent
  | path _ | unknownOperation _ => true
  | _ => false

/-- The segment that did not resolve. -/
def segment? : SyncError → Option String
  | pathNotFound segment _ => some segment
  | _ => none

/-- The class of the failure. -/
def kind : SyncError → ErrorKind
  | pathNotFound .. => .pathNotFound
  | navigation cause => cause.kind
  | path _ => .invalidPath
  | unknownOperation _ => .unknownOperation
  | rejected _ => .rejected
  | batchInProgress | noBatchInProgress => .batch

end SyncError

/-- Any failure of the library, with the layer it comes from. -/
inductive Failure where
  /-- A path or key is malformed. -/
  | path (error : PathError)
  /-- Navigation or conversion failed. -/
  | navigation (error : NavError)
  /-- An event failed. -/
  | sync (error : SyncError)
  deriving DecidableEq, Repr

namespace Failure

/-- The name of the layer. -/
def layer : Failure → String
  | path _ => "path"
  | navigation _ => "reflect"
  | sync _ => "sync"

/-- The failure as one line of text. -/
def message : Failure → String
  | path e => e.message
  | navigation e => e.message
  | sync e => e.message

/-- The class of the failure. -/
def kind : Failure → ErrorKind
  | path _ => .invalidPath
  | navigation e => e.kind
  | sync e => e.kind

/-- Whether a path, entry or field does not exist. -/
def isNotFound : Failure → Bool
  | path _ => false
  | navigation e => e.isNotFound
  | sync e => e.isNotFound

/-- Whether a value failed to convert. -/
def isTypeError : Failure → Bool
  | path _ => false
  | navigation e => e.isTypeError
  | sync e => e.isTypeError

/-- Whether the same event can never succeed. -/
def isPermanent : Failure → Bool
  | path _ => true
  | navigation e => e.isPermanent
  | sync e => e.isPermanent

end Failure

end TreeSync
