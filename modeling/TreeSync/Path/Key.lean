import TreeSync.Path.Bracket
import TreeSync.Path.Error

/-!
# Structured keys

A structured key `Name[field=value][field=value]` addresses a list element by
the content of its fields.  The name is informational.  A value may itself be a
bracketed key; such a value is kept as it stands and is taken apart only when
the field is entered.

Main definitions:

- `Key.Cut` and `Key.cut`: a token cut at its outermost brackets.
- `Key.parse` and `Key.render`: reading and writing a key.
- `Key.split`: the name and the qualifier text behind it.
-/

namespace TreeSync

/-- A structured key taken apart. -/
structure Key where
  /-- Text in front of the first qualifier. -/
  name : String
  /-- Field and value of each qualifier, in the order written. -/
  qualifiers : List (String × String)
  deriving DecidableEq, Repr

namespace Key

/-! ## Cutting a token at its outermost brackets -/

/-- A token cut at its outermost brackets. -/
structure Cut where
  /-- Text in front of the first group. -/
  name : List Char
  /-- The inside of each outermost bracket group, with the text between that
  group and the next one (or the end). -/
  groups : List (List Char × List Char)
  deriving DecidableEq, Repr

namespace Cut

/-- Put a character in front of the leading text. -/
def cons (c : Char) (cut : Cut) : Cut :=
  { cut with name := c :: cut.name }

/-- Put a bracket group in front of a cut whose leading text follows it. -/
def group (inside : List Char) (cut : Cut) : Cut :=
  { name := [], groups := (inside, cut.name) :: cut.groups }

end Cut

mutual

/-- Cut the text that starts at byte `offset` outside of all brackets. -/
def cutOutside (offset : Nat) : List Char → Except Nat Cut
  | [] => .ok ⟨[], []⟩
  | c :: rest =>
      if c = '[' then
        (fun r => Cut.group r.1 r.2) <$>
          cutInside ⟨.bracket, offset⟩ [] (offset + c.utf8Size) rest
      else if c = ']' then .error offset
      else Cut.cons c <$> cutOutside (offset + c.utf8Size) rest

/-- Cut the text that starts at byte `offset` inside a bracket group, with
`top` the innermost open span and `outer` the ones around it.  The result is
the rest of the group and the cut of the text behind it. -/
def cutInside (top : OpenSpan) (outer : List OpenSpan) (offset : Nat) :
    List Char → Except Nat (List Char × Cut)
  | [] => .error top.offset
  | c :: rest =>
      if top.protects c rest then
        match rest with
        | [] => .error top.offset
        | d :: rest =>
            (fun r => (c :: d :: r.1, r.2)) <$>
              cutInside top outer (offset + c.utf8Size + d.utf8Size) rest
      else
        match top.advance outer offset c with
        | [] => (fun cut => ([], cut)) <$> cutOutside (offset + c.utf8Size) rest
        | top :: outer =>
            (fun r => (c :: r.1, r.2)) <$>
              cutInside top outer (offset + c.utf8Size) rest

end

/-- The token cut at its outermost brackets, or the error of its first
delimiter without a partner. -/
def cut (token : String) : Except PathError Cut :=
  match cutOutside 0 token.toList with
  | .error offset => .error (.unbalanced token offset)
  | .ok c => .ok c

/-! ## Qualifiers -/

/-- The text in front of and behind the first equals sign. -/
def splitEquals : List Char → Option (List Char × List Char)
  | [] => none
  | c :: rest =>
      if c = '=' then some ([], rest)
      else (splitEquals rest).map fun r => (c :: r.1, r.2)

/-- Remove one layer of equal quotes around a text of at least two characters. -/
def unquote (raw : List Char) : List Char :=
  match raw with
  | [] => []
  | q :: rest =>
      if (q = '\x27' ∨ q = '\x22') ∧ rest.getLast? = some q then rest.dropLast else raw

/-- Drop the backslash in front of every protected closing bracket. -/
def unprotect : List Char → List Char
  | '\\' :: ']' :: rest => ']' :: unprotect rest
  | c :: rest => c :: unprotect rest
  | [] => []

/-- The value that a qualifier's text stands for.  A text that opens a bracket
is a nested key and stays as it is. -/
def cleanValue (raw : List Char) : List Char :=
  if raw.head? = some '[' then raw else unprotect (unquote raw)

/-- Field and value of one bracket group of `token`. -/
def qualifier (token : String) (inside : List Char) : Except PathError (String × String) :=
  match splitEquals inside with
  | none => .error (.missingEquals token (String.ofList inside))
  | some (field, raw) => .ok (String.ofList field, String.ofList (cleanValue raw))

/-! ## Reading, writing and splitting -/

/-- Take a token apart into its name and qualifiers.  Text between and behind
the bracket groups is dropped. -/
def parse (token : String) : Except PathError Key := do
  let c ← cut token
  let qualifiers ← c.groups.mapM fun g => qualifier token g.1
  return ⟨String.ofList c.name, qualifiers⟩

/-- The text of the bracket groups, from the first opening bracket to the last
closing one. -/
def qualifierText : List (List Char × List Char) → List Char
  | [] => []
  | [(inside, _)] => '[' :: (inside ++ [']'])
  | (inside, behind) :: rest => '[' :: (inside ++ ']' :: (behind ++ qualifierText rest))

/-- The name of a token and the text of its qualifiers.  The text is empty when
there is no qualifier. -/
def split (token : String) : Except PathError (String × String) := do
  let c ← cut token
  return (String.ofList c.name, String.ofList (qualifierText c.groups))

/-- Whether a token carries a qualifier. -/
def isStructured (token : String) : Bool :=
  token.toList.contains '['

/-- The value that the key binds to `field`, the first one if several do. -/
def get? (key : Key) (field : String) : Option String :=
  (key.qualifiers.find? fun q => q.1 == field).map Prod.snd

/-- Whether the key has no qualifiers. -/
def isPlain (key : Key) : Bool :=
  key.qualifiers.isEmpty

/-- One qualifier as text.  A value that holds a closing bracket and is no
nested key is quoted. -/
def renderQualifier (field value : String) : String :=
  if value.toList.head? = some '[' ∨ ¬ value.toList.contains ']' then
    "[" ++ field ++ "=" ++ value ++ "]"
  else
    "[" ++ field ++ "='" ++ value ++ "']"

/-- The key as text. -/
def render (key : Key) : String :=
  key.name ++ String.join (key.qualifiers.map fun q => renderQualifier q.1 q.2)

end Key

end TreeSync
