import TreeSync.Event.Error
import TreeSync.Event.Tag
import TreeSync.Node.Basic

/-!
# Overrides and batch bounds

A record may take over the events addressed at or below it.  It receives them
either segment by segment or as one path text, and answers with its own outcome.
A record at the root may also ask to be told where batches start and finish.

Main definitions:

- `SegmentCall`, `PathCall` and `Override`.
- `Bounds`.
-/

namespace TreeSync

/-- A call of a segment override.  The path holds the segments below the
record, the key is the leaf. -/
inductive SegmentCall where
  /-- Create a child. -/
  | create (path : List String) (key : String) (tag : Tag) (value : String)
  /-- Replace a child. -/
  | replace (path : List String) (key : String) (tag : Tag) (value : String)
  /-- Delete a child. -/
  | delete (path : List String) (key : String)
  deriving DecidableEq, Repr

/-- A call of a path override.  The path leads from the record to the leaf. -/
inductive PathCall where
  /-- Create the value at a path. -/
  | create (path value : String)
  /-- Replace the value at a path. -/
  | replace (path value : String)
  /-- Delete the value at a path. -/
  | delete (path : String)
  deriving DecidableEq, Repr

/-- How a record receives the events that it takes over.  The record may change
itself and may refuse. -/
inductive Override (σ : Type) where
  /-- As segments. -/
  | segments (handle : SegmentCall → Node σ → Node σ × Except SyncError Unit)
  /-- As a path text. -/
  | paths (handle : PathCall → Node σ → Node σ × Except SyncError Unit)

namespace Override

/-- The name of the form. -/
def name {σ : Type} : Override σ → String
  | segments _ => "segments"
  | paths _ => "paths"

end Override

/-- What a record does where a batch starts and finishes. -/
structure Bounds (σ : Type) where
  /-- Called in front of the events of a batch. -/
  start : Node σ → Node σ
  /-- Called behind the events of a batch. -/
  finish : Node σ → Node σ

end TreeSync
