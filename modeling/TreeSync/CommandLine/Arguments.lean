/-!
# Command-line arguments

Options stand in front of or behind the command, with their value behind an
equals sign or as the next argument; two dashes end the options.  A value that
looks like an option is no value, and no option may be given twice at one
place.  The output format may be given at both places, where the one behind the
command counts; environment variables count where an option is not given.

Main definitions:

- `Invocation`, `Request` and `ArgumentFault`.
- `Request.parse`.
-/

namespace TreeSync

/-- How results are written. -/
inductive OutputFormat where
  /-- Tables and indented documents. -/
  | human
  /-- One JSON object. -/
  | json
  deriving DecidableEq, Repr

/-- What the program is asked to do. -/
inductive Command where
  /-- Replay a stream of events onto a document. -/
  | apply (events : String) (initial config : Option String) (bufferBatches : Bool)
  /-- Show the segments of a path. -/
  | parsePath (path : String)
  /-- Show the parts of a key. -/
  | parseKey (key : String)
  deriving DecidableEq, Repr

/-- A command with the format of its output. -/
structure Invocation where
  /-- How results are written. -/
  format : OutputFormat
  /-- What to do. -/
  command : Command
  deriving DecidableEq, Repr

/-- The environment variables that count. -/
structure Environment where
  /-- The output format. -/
  format : Option String := none
  /-- The file of options. -/
  config : Option String := none

/-- Why the arguments make no sense. -/
inductive ArgumentFault where
  /-- No command is named. -/
  | missingCommand
  /-- There is no such command. -/
  | unknownCommand (name : String)
  /-- The argument has no place. -/
  | unexpected (argument : String)
  /-- The option needs a value. -/
  | missingValue (option : String)
  /-- The option takes no value. -/
  | needlessValue (option : String)
  /-- The option has no such value. -/
  | badValue (option value : String)
  /-- The option is given twice. -/
  | repeated (option : String)
  /-- The command lacks an argument. -/
  | missingArgument (name : String)
  deriving DecidableEq, Repr

namespace ArgumentFault

/-- The fault as one line of text. -/
def message : ArgumentFault → String
  | missingCommand => "a command is required"
  | unknownCommand name => "unknown command '" ++ name ++ "'"
  | unexpected argument => "unexpected argument '" ++ argument ++ "'"
  | missingValue option => "option '--" ++ option ++ "' needs a value"
  | needlessValue option => "option '--" ++ option ++ "' takes no value"
  | badValue option value => "invalid value '" ++ value ++ "' for '--" ++ option ++ "'"
  | repeated option => "option '--" ++ option ++ "' is given twice"
  | missingArgument name => "argument <" ++ name ++ "> is missing"

end ArgumentFault

/-- What the arguments ask for. -/
inductive Request where
  /-- To run a command. -/
  | run (invocation : Invocation)
  /-- To show how the program is used. -/
  | help
  /-- To show the version of the program. -/
  | version
  deriving DecidableEq, Repr

/-! ## Options -/

/-- An option of the program or of a command. -/
structure OptionSpec where
  /-- The name behind two dashes. -/
  long : String
  /-- The letter behind one dash. -/
  short : Option Char
  /-- Whether the option has a value. -/
  takesValue : Bool

/-- An argument by its looks. -/
inductive Argument where
  /-- The end of the options. -/
  | separator
  /-- An option by name, with a value behind an equals sign. -/
  | long (name : String) (value : Option String)
  /-- An option by letter, and the text behind the letter. -/
  | short (letter : Char) (rest : List Char)
  /-- Anything else. -/
  | operand (text : String)

namespace Argument

/-- The text in front of the first equals sign, and the text behind it. -/
def splitValue : List Char → List Char × Option (List Char)
  | [] => ([], none)
  | '=' :: rest => ([], some rest)
  | c :: rest => (c :: (splitValue rest).1, (splitValue rest).2)

/-- The argument that a text looks like. -/
def ofText (text : String) : Argument :=
  match text.toList with
  | ['-', '-'] => separator
  | '-' :: '-' :: rest =>
      long (String.ofList (splitValue rest).1) ((splitValue rest).2.map String.ofList)
  | '-' :: letter :: rest => short letter rest
  | _ => operand text

/-- Whether the text can be the value of an option in front of it. -/
def isOperand (text : String) : Bool :=
  match ofText text with
  | operand _ => true
  | _ => false

end Argument

/-- Why reading arguments stops early. -/
inductive Stop where
  /-- The arguments make no sense. -/
  | fault (fault : ArgumentFault)
  /-- Help is asked for. -/
  | help
  /-- The version is asked for. -/
  | version

/-- The options and operands read so far. -/
structure Gathered where
  /-- The options given, with their values. -/
  given : List (String × String) := []
  /-- The operands in order. -/
  operands : List String := []

namespace Gathered

/-- The value of an option, if it is given. -/
def value? (g : Gathered) (name : String) : Option String :=
  (g.given.find? fun o => o.1 == name).map Prod.snd

/-- One more option with its value. -/
def give (g : Gathered) (name value : String) : Except Stop Gathered :=
  if name = "help" then .error .help
  else if name = "version" then .error .version
  else if (g.value? name).isSome then .error (.fault (.repeated name))
  else .ok { g with given := (name, value) :: g.given }

/-- The options and operands of a list of arguments.  In front of a command the
reading ends with the first operand, and what follows is left over. -/
def read (specs : List OptionSpec) (inFront : Bool) (g : Gathered) :
    List String → Except Stop (Gathered × List String)
  | [] => .ok (g, [])
  | argument :: rest =>
      let option (spec : Option OptionSpec) (value : Option String) :=
        match spec with
        | none => .error (.fault (.unexpected argument))
        | some spec =>
            match spec.takesValue, value with
            | false, some _ => .error (.fault (.needlessValue spec.long))
            | false, none => do read specs inFront (← g.give spec.long "") rest
            | true, some value =>
                if value.isEmpty then .error (.fault (.missingValue spec.long))
                else do read specs inFront (← g.give spec.long value) rest
            | true, none =>
                match rest with
                | [] => .error (.fault (.missingValue spec.long))
                | value :: rest =>
                    if value.isEmpty || !Argument.isOperand value then
                      .error (.fault (.missingValue spec.long))
                    else do read specs inFront (← g.give spec.long value) rest
      match Argument.ofText argument with
      | .separator =>
          if inFront then
            match rest with
            | [] => .ok (g, [])
            | argument :: _ => .error (.fault (.unexpected argument))
          else .ok ({ g with operands := g.operands ++ rest }, [])
      | .long name value => option (specs.find? fun s => s.long == name) value
      | .short letter behind =>
          match specs.find? (fun s => s.short == some letter), behind with
          | some ⟨long, _, false⟩, _ :: _ => do
              let _ ← g.give long ""
              .error (.fault (.unexpected argument))
          | spec, [] => option spec none
          | spec, '=' :: value => option spec (some (String.ofList value))
          | spec, value => option spec (some (String.ofList value))
      | .operand text =>
          if inFront then .ok (g, argument :: rest)
          else read specs inFront { g with operands := g.operands ++ [text] } rest

end Gathered

/-! ## Requests -/

namespace OutputFormat

/-- The format that a text names. -/
def parse (text : String) : Except Stop OutputFormat :=
  if text = "human" then .ok human
  else if text = "json" then .ok json
  else if text.isEmpty then .error (.fault (.missingValue "format"))
  else .error (.fault (.badValue "format" text))

/-- The format asked for: behind the command, in front of it, in the
environment, or none at all.  The environment must name a format unless it is
overruled at both places. -/
def choose (inFront behind fromEnvironment : Option String) : Except Stop OutputFormat := do
  let inFront ← inFront.mapM parse
  let behind ← behind.mapM parse
  let fromEnvironment ←
    if inFront.isSome && behind.isSome then pure none else fromEnvironment.mapM parse
  return ((behind.or inFront).or fromEnvironment).getD human

end OutputFormat

namespace Command

/-- The options of every place. -/
def commonOptions : List OptionSpec :=
  [⟨"format", none, true⟩, ⟨"help", some 'h', false⟩]

/-- The options in front of the command. -/
def frontOptions : List OptionSpec :=
  commonOptions ++ [⟨"version", some 'V', false⟩]

/-- The options of the command that replays events. -/
def applyOptions : List OptionSpec :=
  commonOptions ++
    [⟨"initial", some 'i', true⟩, ⟨"config", some 'c', true⟩, ⟨"buffer-batches", none, false⟩]

/-- The names of the commands. -/
def names : List String :=
  ["apply", "parse-path", "parse-key"]

/-- The options of a command. -/
def options (name : String) : List OptionSpec :=
  if name = "apply" then applyOptions else commonOptions

/-- The one operand that a command needs. -/
def operand (name : String) (g : Gathered) : Except Stop String :=
  match g.operands with
  | [] => .error (.fault (.missingArgument name))
  | [text] => .ok text
  | _ :: extra :: _ => .error (.fault (.unexpected extra))

/-- The file of options: the one given, else the one of the environment. -/
def configFile (given fromEnvironment : Option String) : Except Stop (Option String) :=
  match given, fromEnvironment with
  | some file, _ => .ok (some file)
  | none, some "" => .error (.fault (.missingValue "config"))
  | none, file => .ok file

/-- The command of a name with its options and operands. -/
def build (environment : Environment) (name : String) (g : Gathered) : Except Stop Command :=
  if name = "parse-path" then parsePath <$> operand "PATH" g
  else if name = "parse-key" then parseKey <$> operand "KEY" g
  else do
    let events ← if g.operands.isEmpty then pure "-" else operand "EVENTS" g
    let config ← configFile (g.value? "config") environment.config
    return apply events (g.value? "initial") config (g.value? "buffer-batches").isSome

end Command

namespace Invocation

/-- The invocation that a list of arguments spells. -/
def parse (environment : Environment) (arguments : List String) : Except Stop Invocation := do
  let (front, rest) ← Gathered.read Command.frontOptions true {} arguments
  match rest with
  | [] => .error (.fault .missingCommand)
  | name :: rest =>
      if name = "help" then
        match rest.dropWhile ("help" :: Command.names).contains, rest with
        | unknown :: _, _ | [], _ :: unknown :: _ => .error (.fault (.unknownCommand unknown))
        | [], _ => .error .help
      else if !Command.names.contains name then .error (.fault (.unknownCommand name))
      else
        let (behind, _) ← Gathered.read (Command.options name) false {} rest
        let command ← Command.build environment name behind
        let format ←
          OutputFormat.choose (front.value? "format") (behind.value? "format") environment.format
        return ⟨format, command⟩

end Invocation

namespace Request

/-- The request that a list of arguments spells. -/
def parse (environment : Environment) (arguments : List String) : Except ArgumentFault Request :=
  match Invocation.parse environment arguments with
  | .ok invocation => .ok (run invocation)
  | .error .help => .ok help
  | .error .version => .ok version
  | .error (.fault fault) => .error fault

end Request

end TreeSync
