import TreeSync.Event.Basic

/-!
# Journals

The journal of a replica holds the outcome of every event in the order in which
they were applied.
-/

namespace TreeSync

/-- The outcome of one event. -/
structure Outcome where
  /-- The position of the event among all events applied, counted from one. -/
  seq : Nat
  /-- The event. -/
  event : Event
  /-- Why the event failed, if it did. -/
  error : Option SyncError
  deriving DecidableEq, Repr

namespace Outcome

/-- Whether the event succeeded. -/
def succeeded (outcome : Outcome) : Bool :=
  outcome.error.isNone

end Outcome

/-- Outcomes in the order of application. -/
abbrev Journal := List Outcome

namespace Journal

/-- The outcomes of the events that failed. -/
def failures (journal : Journal) : List Outcome :=
  journal.filter fun outcome => !outcome.succeeded

end Journal

end TreeSync
