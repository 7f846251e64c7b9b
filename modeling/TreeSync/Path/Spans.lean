import TreeSync.Path.Key

/-!
# Keys read by byte offsets

A token can be read without cutting it up.  One scan notes where the name ends and which bytes
every outermost bracket group has inside, and the pieces are sliced from the token afterwards.  A
slice fails at an offset where no character starts or ends, and a subtraction fails below zero, so
reading a key in this way is partial.  `none` is such a failure; a token that is refused is an
error inside of `some`.

Main definitions:

- `Key.Span` and `Key.scan`: the insides of the outermost groups as ranges of bytes.
- `Key.slice?` and `Key.oneBefore?`: the steps that can fail.
- `Key.parseSpans?`, `Key.splitSpans?` and `Key.cleanSliced?`: reading, splitting and cleaning.
-/

namespace TreeSync

namespace Key

/-! ## The scan -/

/-- A range of bytes. -/
structure Span where
  /-- The offset of the first byte. -/
  start : Nat
  /-- The offset behind the last byte. -/
  stop : Nat
  deriving DecidableEq, Repr

/-- What a scan has noted so far. -/
structure Noted where
  /-- The offset of the first bracket met. -/
  nameEnd : Option Nat
  /-- The groups closed, in their order. -/
  spans : List Span
  deriving DecidableEq, Repr

namespace Noted

/-- Nothing is noted. -/
def empty : Noted := ⟨none, []⟩

/-- A bracket is met outside of all groups; only the first one ends the name. -/
def meet (noted : Noted) (offset : Nat) : Noted :=
  { noted with nameEnd := noted.nameEnd.or (some offset) }

/-- The last open span is closed at `offset`. -/
def close (noted : Noted) (last : OpenSpan) (offset : Nat) : Noted :=
  if last.delimiter = .bracket then
    { noted with spans := noted.spans ++ [⟨last.offset + 1, offset⟩] }
  else noted

end Noted

/-- Scan the text that starts at byte `offset` inside of the open spans.  The error is the offset
of a delimiter without a partner. -/
def scanFrom (noted : Noted) : List OpenSpan → Nat → List Char → Except Nat Noted
  | [], _, [] => .ok noted
  | top :: _, _, [] => .error top.offset
  | [], offset, c :: rest =>
      if c = '[' then
        scanFrom (noted.meet offset) [⟨.bracket, offset⟩] (offset + c.utf8Size) rest
      else if c = ']' then .error offset
      else scanFrom noted [] (offset + c.utf8Size) rest
  | top :: outer, offset, c :: rest =>
      if top.protects c rest then
        match rest with
        | [] => .error top.offset
        | d :: rest => scanFrom noted (top :: outer) (offset + c.utf8Size + d.utf8Size) rest
      else
        match top.advance outer offset c with
        | [] => scanFrom (noted.close top offset) [] (offset + c.utf8Size) rest
        | inner :: spans => scanFrom noted (inner :: spans) (offset + c.utf8Size) rest

/-- The end of the name and the spans of a token.  A token without brackets is its own name. -/
def scan (token : String) : Except PathError (Nat × List Span) :=
  match scanFrom .empty [] 0 token.toList with
  | .error offset => .error (.unbalanced token offset)
  | .ok noted => .ok (noted.nameEnd.getD token.utf8ByteSize, noted.spans)

/-! ## Slices -/

/-- The text between two byte offsets. -/
def slice? (text : String) (start stop : Nat) : Option String :=
  if start ≤ stop ∧ String.Pos.Raw.isValid text ⟨start⟩ = true ∧
      String.Pos.Raw.isValid text ⟨stop⟩ = true then
    some (String.Pos.Raw.extract text ⟨start⟩ ⟨stop⟩)
  else none

/-- The offset in front. -/
def oneBefore? : Nat → Option Nat
  | 0 => none
  | offset + 1 => some offset

/-- The bytes of a text. -/
def bytes (text : String) : List UInt8 :=
  text.toByteArray.data.toList

/-- The first byte and the last one are this quote, and they are two. -/
def QuotedBy (quote : Char) (raw : String) : Prop :=
  (bytes raw).head? = some (UInt8.ofNat quote.toNat) ∧
    (bytes raw).getLast? = some (UInt8.ofNat quote.toNat) ∧ 2 ≤ raw.utf8ByteSize

instance (quote : Char) (raw : String) : Decidable (QuotedBy quote raw) :=
  inferInstanceAs (Decidable (_ ∧ _ ∧ _))

/-- The value that a qualifier's text stands for, its quotes sliced off. -/
def cleanSliced? (raw : String) : Option String :=
  if raw.toList.head? = some '[' then some raw
  else if QuotedBy '\x27' raw ∨ QuotedBy '\x22' raw then do
    let stop ← oneBefore? raw.utf8ByteSize
    let inside ← slice? raw 1 stop
    return String.ofList (unprotect inside.toList)
  else some (String.ofList (unprotect raw.toList))

/-! ## Reading and splitting -/

/-- The qualifiers at the spans of a token, up to the first one without an equals sign. -/
def qualifiersAt? (token : String) :
    List Span → Option (Except PathError (List (String × String)))
  | [] => some (.ok [])
  | span :: rest => do
      let inside ← slice? token span.start span.stop
      match splitEquals inside.toList with
      | none => return .error (.missingEquals token inside)
      | some (field, raw) =>
          let value ← cleanSliced? (String.ofList raw)
          let more ← qualifiersAt? token rest
          return more.map fun qualifiers => (String.ofList field, value) :: qualifiers

/-- A token taken apart at its spans. -/
def parseSpans? (token : String) : Option (Except PathError Key) :=
  match scan token with
  | .error e => some (.error e)
  | .ok (nameEnd, spans) => do
      match ← qualifiersAt? token spans with
      | .error e => return .error e
      | .ok qualifiers =>
          let name ← slice? token 0 nameEnd
          return .ok ⟨name, qualifiers⟩

/-- The text from the bracket in front of the first span to the one behind the last. -/
def qualifierSlice? (token : String) (spans : List Span) : Option String :=
  match spans.head?, spans.getLast? with
  | some first, some last => do
      let start ← oneBefore? first.start
      slice? token start (last.stop + 1)
  | _, _ => some ""

/-- The name of a token and the text of its qualifiers, sliced from it. -/
def splitSpans? (token : String) : Option (Except PathError (String × String)) :=
  match scan token with
  | .error e => some (.error e)
  | .ok (nameEnd, spans) => do
      let rest ← qualifierSlice? token spans
      let name ← slice? token 0 nameEnd
      return .ok (name, rest)

end Key

end TreeSync
