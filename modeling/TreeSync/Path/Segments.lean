import TreeSync.Path.Bracket
import TreeSync.Path.Error

/-!
# Slash paths

A path such as `/interfaces/interface[name=eth0]/mtu` is a sequence of
segments.  A slash separates segments only outside of brackets, and empty
segments are dropped.

Main definitions:

- `Path.pieces`: the text cut at its separating slashes, empty pieces included.
- `Path.parse`: the segments of a path text.
- `Path.render`: the path text of a list of segments.
-/

namespace TreeSync

namespace Path

/-- Put characters in front of the first piece. -/
def prepend (text : List Char) : List (List Char) → List (List Char)
  | [] => [text]
  | piece :: pieces => (text ++ piece) :: pieces

/-- Cut the text that starts at byte `offset`, with `spans` open, at the slashes
outside of all brackets.

Protected closing brackets keep their backslash, so that a piece can be read as
a key.  The error is the offset of a closing bracket that closes nothing or, at
the end of the text, of the innermost span left open. -/
def pieces (spans : List OpenSpan) (offset : Nat) :
    List Char → Except Nat (List (List Char))
  | [] =>
      match spans with
      | [] => .ok [[]]
      | top :: _ => .error top.offset
  | c :: rest =>
      match spans with
      | [] =>
          if c = '/' then ([] :: ·) <$> pieces [] (offset + c.utf8Size) rest
          else if c = ']' then .error offset
          else if c = '[' then
            prepend [c] <$> pieces [⟨.bracket, offset⟩] (offset + c.utf8Size) rest
          else prepend [c] <$> pieces [] (offset + c.utf8Size) rest
      | top :: outer =>
          if top.protects c rest then
            match rest with
            | [] => .error top.offset
            | d :: rest =>
                prepend [c, d] <$>
                  pieces (top :: outer) (offset + c.utf8Size + d.utf8Size) rest
          else
            prepend [c] <$> pieces (top.advance outer offset c) (offset + c.utf8Size) rest

/-- The segments of a path text.  The empty text and a lone slash have none. -/
def parse (path : String) : Except PathError (List String) :=
  match pieces [] 0 path.toList with
  | .error offset => .error (.unbalanced path offset)
  | .ok ps => .ok ((ps.filter fun p => !p.isEmpty).map String.ofList)

/-- The path text of a list of segments: each segment behind a slash, and a
lone slash for the empty list. -/
def render (segments : List String) : String :=
  match segments with
  | [] => "/"
  | _ => String.join (segments.map ("/" ++ ·))

end Path

end TreeSync
