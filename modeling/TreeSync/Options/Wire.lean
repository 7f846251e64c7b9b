import TreeSync.Json.Location
import TreeSync.Options.Basic

/-!
# Reading options

Options are written as a JSON object of flags, or as an array of flags in a
fixed order.  What is missing has its default; unknown members are ignored.

Main definitions:

- `Options.ofJson`: the options that a JSON value spells.
- `Options.readText`: the options that a JSON text spells.
-/

namespace TreeSync

namespace Options

/-- The names of the options, in the order of the array form. -/
def names : List String :=
  ["tag_lookup", "case_insensitive", "init_children", "find_by_content", "buffer_batches"]

/-- The options with the named one set; another name changes nothing. -/
def set (o : Options) (name : String) (enabled : Bool) : Options :=
  if name = "tag_lookup" then { o with secondNames := enabled }
  else if name = "case_insensitive" then { o with ignoreCase := enabled }
  else if name = "init_children" then { o with allocateChildren := enabled }
  else if name = "find_by_content" then { o with findByContent := enabled }
  else if name = "buffer_batches" then { o with bufferBatches := enabled }
  else o

/-- The options by name, in the order of the array form. -/
def flags (o : Options) : List (String × Bool) :=
  names.zip
    [o.secondNames, o.ignoreCase, o.allocateChildren, o.findByContent, o.bufferBatches]

/-- The options with a given one read from a JSON value. -/
def read (o : Options) (name : String) (j : Json) : Except Json.Fault Options :=
  if names.contains name then return o.set name (← j.toBool) else return o

/-- The options that a JSON value spells. -/
def ofJson (j : Json) : Except Json.Fault Options :=
  match j with
  | .object members => do
      let members ← Json.distinctMembers names members
      members.foldlM (fun o m => o.read m.1 m.2) {}
  | .array items => do
      let o ← (names.zip items).foldlM (fun o m => o.read m.1 m.2) {}
      if names.length < items.length then
        .error (.invalidLength items.length "fewer elements in array")
      else return o
  | j => .error (.invalidType j "struct Config")

/-- The options that a JSON text spells, or a message that says where the text
goes wrong. -/
def readText (text : String) : Except String Options :=
  match Json.read text with
  | none => .error "malformed JSON"
  | some j => Json.locate ofJson j text.toList

end Options

end TreeSync
