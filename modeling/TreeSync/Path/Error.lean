/-!
# Malformed paths and keys

The two ways in which the text of a path or of a structured key can be wrong.
-/

namespace TreeSync

/-- Why a path or a structured key could not be read. -/
inductive PathError where
  /-- A bracket or quote of `input` at byte `offset` has no partner. -/
  | unbalanced (input : String) (offset : Nat)
  /-- A bracketed qualifier of `input` has no equals sign. -/
  | missingEquals (input : String) (qualifier : String)
  deriving DecidableEq, Repr

namespace PathError

/-- The error as one line of text. -/
def message : PathError → String
  | unbalanced input offset =>
      "Unbalanced delimiter in '" ++ input ++ "' at offset " ++ toString offset
  | missingEquals input qualifier =>
      "Qualifier '[" ++ qualifier ++ "]' in '" ++ input ++ "' is missing '='"

/-- The text that could not be read. -/
def input : PathError → String
  | unbalanced input _ => input
  | missingEquals input _ => input

/-- Whether a delimiter lacks its partner. -/
def isUnbalanced : PathError → Bool
  | unbalanced .. => true
  | missingEquals .. => false

/-- Byte offset of the offending delimiter, when there is one. -/
def offset? : PathError → Option Nat
  | unbalanced _ offset => some offset
  | missingEquals .. => none

end PathError

end TreeSync
