import TreeSync.Text.Shapeless

/-!
# Quoted text

Text between double quotes, with escapes for the quote, the backslash, controls
and every character that has no shape of its own.
-/

namespace TreeSync

namespace Quoted

/-- A code point as an escape in braces. -/
def codeEscape (c : Char) : List Char :=
  ['\\', 'u', '\x7b'] ++ Nat.toDigits 16 c.toNat ++ ['\x7d']

/-- A character as it stands between the quotes. -/
def escape (c : Char) : List Char :=
  if c = '\x00' then ['\\', '0']
  else if c = '\t' then ['\\', 't']
  else if c = '\r' then ['\\', 'r']
  else if c = '\n' then ['\\', 'n']
  else if c = '\\' then ['\\', '\\']
  else if c = '\x22' then ['\\', '\x22']
  else if Shapeless.isExtender c || Shapeless.isUnprintable c then codeEscape c
  else [c]

/-- The text in double quotes. -/
def encode (text : String) : String :=
  String.ofList ('\x22' :: (text.toList.flatMap escape ++ ['\x22']))

end Quoted

end TreeSync
