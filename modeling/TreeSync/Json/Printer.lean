import TreeSync.Json.Basic
import TreeSync.Number.Integer
import TreeSync.Number.Layout

/-!
# Writing JSON

The compact form has no blanks.  The indented form puts every item and member
on a line of its own, two blanks deeper than its container, and empty
containers on one line.

Main definitions:

- `Json.compact` and `Json.pretty`.
- `Json.quote`: a string with its escapes.
-/

namespace TreeSync

namespace Json

/-- A character inside a string. -/
def escapeChar (c : Char) : List Char :=
  if c = '\x22' then ['\\', '\x22']
  else if c = '\\' then ['\\', '\\']
  else if c = '\x08' then ['\\', 'b']
  else if c = '\x0c' then ['\\', 'f']
  else if c = '\n' then ['\\', 'n']
  else if c = '\r' then ['\\', 'r']
  else if c = '\t' then ['\\', 't']
  else if c.toNat < 0x20 then
    ['\\', 'u', '0', '0', Nat.digitChar (c.toNat / 16), Nat.digitChar (c.toNat % 16)]
  else [c]

/-- A string in quotes. -/
def quote (s : String) : List Char :=
  '\x22' :: (s.toList.flatMap escapeChar ++ ['\x22'])

/-- A floating-point number; numbers that are not finite are written as null. -/
def floatText (x : Float) : List Char :=
  match decodeDouble x with
  | .finite b => (FloatLayout.data.text b).toList
  | _ => "null".toList

/-- A value without parts. -/
def leafChars : Json → List Char
  | null => "null".toList
  | bool b => (if b then "true" else "false").toList
  | int n => (Integer.text n).toList
  | float x => floatText x
  | text s => quote s
  | array _ => []
  | object _ => []

mutual

/-- The compact form. -/
def compactChars : Json → List Char
  | array items => '[' :: (compactItems items ++ [']'])
  | object members => '\x7b' :: (compactMembers members ++ ['\x7d'])
  | null => leafChars null
  | bool b => leafChars (bool b)
  | int n => leafChars (int n)
  | float x => leafChars (float x)
  | text s => leafChars (text s)

/-- Items separated by commas. -/
def compactItems : List Json → List Char
  | [] => []
  | [item] => compactChars item
  | item :: rest => compactChars item ++ ',' :: compactItems rest

/-- Members separated by commas. -/
def compactMembers : List (String × Json) → List Char
  | [] => []
  | [(name, value)] => quote name ++ ':' :: compactChars value
  | (name, value) :: rest => quote name ++ ':' :: (compactChars value ++ ',' :: compactMembers rest)

end

/-- A line break and the blanks in front of a line at a nesting depth. -/
def newline (depth : Nat) : List Char :=
  '\n' :: List.replicate (2 * depth) ' '

mutual

/-- The indented form at a nesting depth. -/
def prettyChars (depth : Nat) : Json → List Char
  | array [] => ['[', ']']
  | array (item :: rest) =>
      '[' :: (prettyItems (depth + 1) (item :: rest) ++ newline depth ++ [']'])
  | object [] => ['\x7b', '\x7d']
  | object (m :: rest) =>
      '\x7b' :: (prettyMembers (depth + 1) (m :: rest) ++ newline depth ++ ['\x7d'])
  | null => leafChars null
  | bool b => leafChars (bool b)
  | int n => leafChars (int n)
  | float x => leafChars (float x)
  | text s => leafChars (text s)

/-- Items on lines of their own. -/
def prettyItems (depth : Nat) : List Json → List Char
  | [] => []
  | [item] => newline depth ++ prettyChars depth item
  | item :: rest => newline depth ++ prettyChars depth item ++ ',' :: prettyItems depth rest

/-- Members on lines of their own. -/
def prettyMembers (depth : Nat) : List (String × Json) → List Char
  | [] => []
  | [(name, value)] => newline depth ++ quote name ++ ':' :: ' ' :: prettyChars depth value
  | (name, value) :: rest =>
      newline depth ++ quote name ++ ':' :: ' ' :: (prettyChars depth value ++
        ',' :: prettyMembers depth rest)

end

/-- The compact text of a value. -/
def compact (j : Json) : String :=
  String.ofList j.compactChars

/-- The indented text of a value. -/
def pretty (j : Json) : String :=
  String.ofList (j.prettyChars 0)

end Json

end TreeSync
