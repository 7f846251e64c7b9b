import TreeSync.CommandLine.Arguments
import TreeSync.CommandLine.EventLine
import TreeSync.CommandLine.Table
import TreeSync.Document.Text
import TreeSync.Options.Wire
import TreeSync.Replica.Basic

/-!
# Running commands

A command reads its files and the standard input, writes its output and ends
with a status.  All of it is a function of what there is to read.

Main definitions:

- `Source` and `Report`.
- `Invocation.run`: a command.
- `runArguments`: the whole program.
-/

namespace TreeSync

/-- Why a file cannot be read. -/
inductive FileFault where
  /-- There is no such file. -/
  | missing
  /-- The name is that of a directory. -/
  | directory
  /-- A part of the name in front of a slash is no directory. -/
  | notDirectory
  /-- The file may not be read. -/
  | denied
  /-- The content is no text. -/
  | notText
  /-- Any other reason. -/
  | other (message : String)
  deriving DecidableEq, Repr

namespace FileFault

/-- The fault as one line of text. -/
def message : FileFault → String
  | missing => "No such file or directory (os error 2)"
  | directory => "Is a directory (os error 21)"
  | notDirectory => "Not a directory (os error 20)"
  | denied => "Permission denied (os error 13)"
  | notText => "stream did not contain valid UTF-8"
  | other message => message

end FileFault

/-- What there is to read. -/
structure Source where
  /-- The standard input. -/
  stdin : String
  /-- The content of a file. -/
  file : String → Except FileFault String

namespace Source

/-- The content of a file, or a message. -/
def read (source : Source) (name : String) : Except String String :=
  (source.file name).mapError FileFault.message

end Source

/-- What a run leaves behind. -/
structure Report where
  /-- The exit status. -/
  status : Nat
  /-- What was written to the standard output. -/
  stdout : String
  /-- What was written to the standard error output, without its line break. -/
  stderr : String
  deriving DecidableEq, Repr

namespace Report

/-- The text of lines. -/
def linesText (lines : List String) : String :=
  String.join (lines.map (· ++ "\n"))

/-- A run that wrote lines and succeeded. -/
def success (lines : List String) : Report :=
  ⟨0, linesText lines, ""⟩

/-- A run that wrote lines and failed for a reason. -/
def failure (lines : List String) (reason : String) : Report :=
  ⟨1, linesText lines, "Error: " ++ reason⟩

end Report

/-! ## Inspecting paths and keys -/

/-- The number of qualifiers of a segment, or a dash if it is no key. -/
def qualifierCount (segment : String) : String :=
  match Key.parse segment with
  | .ok key => toString key.qualifiers.length
  | .error _ => "-"

/-- Segments as rows, counted from `index`. -/
def segmentRows (index : Nat) : List String → List (List String)
  | [] => []
  | segment :: rest =>
      [toString index, segment, qualifierCount segment] :: segmentRows (index + 1) rest

/-- Show the segments of a path. -/
def showPath (format : OutputFormat) (path : String) : Report :=
  match Path.parse path with
  | .error e => .failure [] e.message
  | .ok segments =>
      match format with
      | .json => .success [(Json.object [("segments", .texts segments)]).compact]
      | .human =>
          if segments.isEmpty then .success ["(root)"]
          else .success (Table.lines ["INDEX", "SEGMENT", "QUALIFIERS"] (segmentRows 0 segments))

/-- A qualifier as a JSON object. -/
def qualifierJson (q : String × String) : Json :=
  .object [("field", .text q.1), ("value", .text q.2)]

/-- Show the parts of a key. -/
def showKey (format : OutputFormat) (key : String) : Report :=
  match Key.parse key with
  | .error e => .failure [] e.message
  | .ok key =>
      match format with
      | .json =>
          let fields := key.qualifiers.map qualifierJson
          .success [(Json.object [("fields", .array fields), ("name", .text key.name)]).compact]
      | .human =>
          .success <| ("Name:   " ++ key.name) ::
            if key.qualifiers.isEmpty then ["Fields: (none)"]
            else "" :: Table.lines ["FIELD", "VALUE"] (key.qualifiers.map fun q => [q.1, q.2])

/-! ## Replaying events -/

/-- The schema of a target that is a document. -/
def documentSchema : Schema Unit := .empty ()

/-- The document that a replica holds. -/
def Replica.document {σ : Type} (r : Replica σ) : Document :=
  match r.target with
  | .dynamic d => d
  | _ => .null

/-- The replica after what a line says.  Events fail silently; misplaced batch
marks do not. -/
def Replica.follow (r : Replica Unit) : EventLine → Except String (Replica Unit)
  | .event e => .ok (r.apply documentSchema e).1
  | .batchBegin =>
      match r.beginBatch documentSchema with
      | (r, .ok ()) => .ok r
      | (_, .error e) => .error e.message
  | .batchEnd =>
      match r.endBatch documentSchema with
      | (r, .ok _) => .ok r
      | (_, .error e) => .error e.message

/-- The replica after lines counted from `number`. -/
def Replica.followLines (r : Replica Unit) (number : Nat) :
    List String → Except String (Replica Unit)
  | [] => .ok r
  | line :: rest =>
      if EventLine.isSilent line then r.followLines (number + 1) rest
      else
        match EventLine.read line with
        | .error reason => .error ("line " ++ toString number ++ ": " ++ reason)
        | .ok said =>
            match r.follow said with
            | .error reason => .error reason
            | .ok r => r.followLines (number + 1) rest

/-- The replica after a stream of events.  A batch still open at the end is
closed. -/
def Replica.replay (r : Replica Unit) (stream : String) : Except String (Replica Unit) := do
  let r ← r.followLines 1 (EventLine.split stream)
  if r.inBatch then r.follow .batchEnd else return r

/-- A failed event as a row. -/
def failureRow (outcome : Outcome) (error : SyncError) : List String :=
  [toString outcome.seq, outcome.event.text, error.message]

/-- A failed event as a JSON object. -/
def failureObject (outcome : Outcome) (error : SyncError) : Json :=
  .object
    [("error", .text error.message), ("event", outcome.event.toJson),
      ("kind", .text error.kind.name), ("seq", .int outcome.seq)]

/-- Something made of every failed event. -/
def Journal.mapFailures {α : Type} (journal : Journal) (f : Outcome → SyncError → α) : List α :=
  journal.filterMap fun outcome => outcome.error.map (f outcome)

/-- The lines that show a replica. -/
def Replica.show (r : Replica Unit) : OutputFormat → List String
  | .human =>
      let rows := r.journal.mapFailures failureRow
      [r.document.pretty] ++
        (if rows.isEmpty then [] else "" :: Table.lines ["SEQ", "EVENT", "ERROR"] rows) ++
        ["", "Applied: " ++ toString r.journal.length ++ "  Failed: " ++
          toString r.journal.failures.length]
  | .json =>
      [(Json.object
        [("applied", .int r.journal.length), ("document", r.document.toJson),
          ("errors", .array (r.journal.mapFailures failureObject)),
          ("failed", .int r.journal.failures.length)]).sorted.compact]

/-- The options that a file holds. -/
def readOptions (source : Source) (file : Option String) : Except String Options :=
  match file with
  | none => .ok {}
  | some name => do
      Options.readText (← source.read name)

/-- The document that a file holds. -/
def readDocument (source : Source) (file : Option String) : Except String Document :=
  match file with
  | none => .ok .null
  | some name => do
      let text ← source.read name
      match Document.read? text with
      | none => .error "malformed JSON"
      | some d => .ok d

/-- The replica after replaying events onto a document. -/
def replayCommand (source : Source) (events : String) (initial config : Option String)
    (bufferBatches : Bool) : Except String (Replica Unit) := do
  let options ← readOptions source config
  let options := if bufferBatches then { options with bufferBatches := true } else options
  let document ← readDocument source initial
  let stream ← if events = "-" then pure source.stdin else source.read events
  Replica.replay { target := .dynamic document, options := options } stream

/-- Replay events onto a document and show the result. -/
def runApply (source : Source) (format : OutputFormat) (events : String)
    (initial config : Option String) (bufferBatches : Bool) : Report :=
  match replayCommand source events initial config bufferBatches with
  | .error reason => .failure [] reason
  | .ok r =>
      let failed := r.journal.failures.length
      if failed = 0 then .success (r.show format)
      else
        .failure (r.show format)
          (toString failed ++ " of " ++ toString r.journal.length ++ " events failed")

/-! ## The program -/

/-- Run a command. -/
def Invocation.run (invocation : Invocation) (source : Source) : Report :=
  match invocation.command with
  | .apply events initial config bufferBatches =>
      runApply source invocation.format events initial config bufferBatches
  | .parsePath path => showPath invocation.format path
  | .parseKey key => showKey invocation.format key

/-- The files that a command reads. -/
def Invocation.files (invocation : Invocation) : List String :=
  match invocation.command with
  | .apply events initial config _ =>
      config.toList ++ initial.toList ++ if events = "-" then [] else [events]
  | _ => []

/-- How the program is used. -/
def usage : List String :=
  ["ysync: apply path-keyed change events onto structured values",
    "",
    "Usage: ysync [OPTIONS] <COMMAND>",
    "",
    "Commands:",
    "  apply       Apply a stream of change events to a dynamic document",
    "  parse-path  Split a slash-separated path into segments",
    "  parse-key   Decompose a structured list-entry key",
    "  help        Print this message"]

/-- The program as a function of its arguments, its environment and what there
is to read. -/
def runArguments (environment : Environment) (arguments : List String) (source : Source) :
    Report :=
  match Request.parse environment arguments with
  | .error fault => ⟨2, "", "error: " ++ fault.message⟩
  | .ok .help => .success usage
  | .ok .version => .success ["ysync 0.2.0"]
  | .ok (.run invocation) => invocation.run source

end TreeSync
