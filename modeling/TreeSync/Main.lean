import TreeSync.CommandLine.Run

/-!
# The program

Reads the files and the input that a command names, runs it, and writes what it
leaves behind.
-/

namespace TreeSync

/-- The content of a file, or why it cannot be read. -/
def readFile (name : String) : IO (Except FileFault String) := do
  try
    return .ok (← IO.FS.readFile name)
  catch e =>
    match e with
    | .noFileOrDirectory .. => return .error .missing
    | .inappropriateType _ 21 _ => return .error .directory
    | .inappropriateType .. => return .error .notDirectory
    | .permissionDenied .. => return .error .denied
    | .userError _ => return .error .notText
    | e => return .error (.other (toString e))

/-- Everything that is left to read. -/
partial def readAll (stream : IO.FS.Stream) (done : String) : IO String := do
  let line ← stream.getLine
  if line.isEmpty then return done else readAll stream (done ++ line)

/-- What a request may read: its files, and the standard input. -/
def gatherSource (request : Except ArgumentFault Request) : IO Source := do
  let names :=
    match request with
    | .ok (.run invocation) => invocation.files
    | _ => []
  let files ← names.mapM fun name => return (name, ← readFile name)
  let readsInput :=
    match request with
    | .ok (.run ⟨_, .apply "-" ..⟩) => true
    | _ => false
  let stdin ← if readsInput then readAll (← IO.getStdin) "" else pure ""
  return { stdin := stdin, file := fun name => (Entries.get? name files).getD (.error .missing) }

end TreeSync

open TreeSync in
/-- Run the program. -/
def main (arguments : List String) : IO UInt32 := do
  let environment : Environment :=
    { format := ← IO.getEnv "YSYNC_FORMAT", config := ← IO.getEnv "YSYNC_CONFIG" }
  let source ← gatherSource (Request.parse environment arguments)
  let report := runArguments environment arguments source
  IO.print report.stdout
  unless report.stderr.isEmpty do IO.eprintln report.stderr
  return report.status.toUInt32
