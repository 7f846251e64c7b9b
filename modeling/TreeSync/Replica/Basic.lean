import TreeSync.Apply.Basic
import TreeSync.Replica.Journal

/-!
# Replicas

A replica is a target kept in step with a stream of events, together with its
options and the journal of what was applied.  A failing event never stops the
stream.  Events between the start and the finish of a batch may be held back
until the batch finishes.

Main definitions:

- `Replica`, `Replica.execute` and `Replica.apply`.
- `Replica.beginBatch` and `Replica.endBatch`.
- `Replica.call`: a replica driven by paths.
-/

namespace TreeSync

/-- A target kept in step with a stream of events. -/
structure Replica (σ : Type) where
  /-- The target. -/
  target : Node σ
  /-- How events are applied. -/
  options : Options := {}
  /-- What was applied since the journal was last cleared. -/
  journal : Journal := []
  /-- The events held back by the open batch, if one is open. -/
  batch : Option (List Event) := none
  /-- The number of events applied. -/
  seq : Nat := 0

namespace Replica

variable {σ : Type} (S : Schema σ)

/-- Whether a batch is open. -/
def inBatch (r : Replica σ) : Bool :=
  r.batch.isSome

/-! ## Events -/

/-- Apply an event now and record its outcome. -/
def execute (r : Replica σ) (e : Event) : Replica σ × Except SyncError Unit :=
  let (target, result) := S.apply r.options e r.target
  let error :=
    match result with
    | .ok () => none
    | .error err => some err
  ({ r with
      target := target
      journal := r.journal ++ [⟨r.seq + 1, e, error⟩]
      seq := r.seq + 1 }, result)

/-- Hand over an event: it is applied now, or held back while a batch is open
and the options say so. -/
def apply (r : Replica σ) (e : Event) : Replica σ × Except SyncError Unit :=
  match r.options.bufferBatches, r.batch with
  | true, some queue => ({ r with batch := some (queue ++ [e]) }, .ok ())
  | _, _ => r.execute S e

/-- The number of failures. -/
def countFailures (results : List (Except SyncError Unit)) : Nat :=
  results.countP fun r => r.toBool.not

/-- Take a step for every event in order, and list the results. -/
def forEach (step : Replica σ → Event → Replica σ × Except SyncError Unit) (r : Replica σ) :
    List Event → Replica σ × List (Except SyncError Unit)
  | [] => (r, [])
  | e :: rest =>
      let (r, result) := step r e
      let (r, results) := forEach step r rest
      (r, result :: results)

/-- Hand over every event in order, and count those that failed. -/
def applyAll (r : Replica σ) (events : List Event) : Replica σ × Nat :=
  let (r, results) := forEach (apply S) r events
  (r, countFailures results)

/-! ## Batches -/

/-- The bounds that the target asks to be told of.  Only a record at the root
itself is asked, whatever layers hide. -/
def bounds? (target : Node σ) : Option (Bounds σ) :=
  match target with
  | .record type _ _ => (S.find? type).bind RecordDef.bounds
  | _ => none

/-- Tell the target that a batch starts. -/
def notifyStart (r : Replica σ) : Replica σ :=
  match bounds? S r.target with
  | some b => { r with target := b.start r.target }
  | none => r

/-- Tell the target that a batch finishes. -/
def notifyFinish (r : Replica σ) : Replica σ :=
  match bounds? S r.target with
  | some b => { r with target := b.finish r.target }
  | none => r

/-- Open a batch.  The target is told now, or when the batch ends if its events
are held back. -/
def beginBatch (r : Replica σ) : Replica σ × Except SyncError Unit :=
  match r.batch with
  | some _ => (r, .error .batchInProgress)
  | none =>
      let r := { r with batch := some [] }
      (if r.options.bufferBatches then r else r.notifyStart S, .ok ())

/-- Close the open batch and apply the events held back.  The result is the
number of these that failed. -/
def endBatch (r : Replica σ) : Replica σ × Except SyncError Nat :=
  match r.batch with
  | none => (r, .error .noBatchInProgress)
  | some queue =>
      let r := { r with batch := none }
      if r.options.bufferBatches then
        let (r, results) := forEach (execute S) (r.notifyStart S) queue
        (r.notifyFinish S, .ok (countFailures results))
      else (r.notifyFinish S, .ok 0)

/-! ## Paths -/

/-- Apply the event that a call by path stands for.  It is never held back. -/
def call (r : Replica σ) (c : PathCall) : Replica σ × Except SyncError Unit :=
  let event :=
    match c with
    | .create path value => Event.ofPath .create path .default value
    | .replace path value => Event.ofPath .replace path .default value
    | .delete path => Event.ofPath .delete path .default ""
  match event with
  | .ok e => r.execute S e
  | .error err => (r, .error (.path err))

/-! ## The journal -/

/-- Empty the journal; numbering goes on. -/
def clearJournal (r : Replica σ) : Replica σ :=
  { r with journal := [] }

end Replica

end TreeSync
