/-!
# Bracket nesting

A path segment or a list key may carry bracketed qualifiers.  Inside a bracket
the two quote characters open literal spans, brackets nest, and a backslash in
front of a closing bracket protects it.  This module fixes what is open at a
point of the text; the scanners of paths and keys walk the text with it.

Main definitions:

- `Delimiter` and `OpenSpan`: what was opened, and at which byte.
- `OpenSpan.advance`: the spans open after one more character inside a bracket.
-/

namespace TreeSync

/-- What opened a span of protected text. -/
inductive Delimiter where
  /-- A square bracket; brackets and quotes nest inside it. -/
  | bracket
  /-- A single quote; everything up to the next one is literal. -/
  | single
  /-- A double quote; everything up to the next one is literal. -/
  | double
  deriving DecidableEq, Repr

namespace Delimiter

/-- The character that closes the span. -/
def closer : Delimiter → Char
  | bracket => ']'
  | single => '\x27'
  | double => '\x22'

/-- The delimiter that a character opens inside a bracket. -/
def opened? (c : Char) : Option Delimiter :=
  if c = '[' then some bracket
  else if c = '\x27' then some single
  else if c = '\x22' then some double
  else none

end Delimiter

/-- A span that is still open, with the byte offset of the character that
opened it. -/
structure OpenSpan where
  /-- What opened the span. -/
  delimiter : Delimiter
  /-- Byte offset of the opening character. -/
  offset : Nat
  deriving DecidableEq, Repr

namespace OpenSpan

/-- The spans open after reading `c` at byte `offset` while `top` is the
innermost open span and `outer` are the ones around it.

The closing character of `top` ends it.  Any other character of a quoted span
is literal; in a bracket an opening character starts a further span. -/
def advance (top : OpenSpan) (outer : List OpenSpan) (offset : Nat) (c : Char) :
    List OpenSpan :=
  if c = top.delimiter.closer then outer
  else match top.delimiter with
    | .bracket =>
        match Delimiter.opened? c with
        | some d => ⟨d, offset⟩ :: top :: outer
        | none => top :: outer
    | _ => top :: outer

/-- Whether the text that starts at the backslash `c` is a protected closing
bracket inside `top`. -/
def protects (top : OpenSpan) (c : Char) (rest : List Char) : Bool :=
  top.delimiter == .bracket && c == '\\' && rest.head? == some ']'

end OpenSpan

end TreeSync
