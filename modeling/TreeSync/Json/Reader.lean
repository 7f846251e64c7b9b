import TreeSync.Json.Number

/-!
# Reading JSON

A reader for the standard grammar: blanks are the four ASCII ones, strings hold
no raw control character, and an escaped surrogate stands only in a pair.

Main definition: `Json.read`.
-/

namespace TreeSync

namespace Json

/-- Whether the character is a JSON blank. -/
def isBlank (c : Char) : Bool :=
  c == ' ' || c == '\t' || c == '\n' || c == '\r'

/-- The text without the blanks at its start. -/
def skipBlanks (input : List Char) : List Char :=
  input.dropWhile isBlank

/-- The value of a hexadecimal digit. -/
def hexDigit? (c : Char) : Option Nat :=
  if '0' ≤ c ∧ c ≤ '9' then some (c.toNat - '0'.toNat)
  else if 'a' ≤ c ∧ c ≤ 'f' then some (c.toNat - 'a'.toNat + 10)
  else if 'A' ≤ c ∧ c ≤ 'F' then some (c.toNat - 'A'.toNat + 10)
  else none

/-- The value of four hexadecimal digits. -/
def hex4? (a b c d : Char) : Option Nat := do
  let a ← hexDigit? a
  let b ← hexDigit? b
  let c ← hexDigit? c
  let d ← hexDigit? d
  return ((a * 16 + b) * 16 + c) * 16 + d

/-- The character that a single-letter escape stands for. -/
def simpleEscape? (c : Char) : Option Char :=
  if c = '\x22' then some '\x22'
  else if c = '\\' then some '\\'
  else if c = '/' then some '/'
  else if c = 'b' then some '\x08'
  else if c = 'f' then some '\x0c'
  else if c = 'n' then some '\n'
  else if c = 'r' then some '\r'
  else if c = 't' then some '\t'
  else none

/-- The characters of a string behind its opening quote, and the text behind
its closing one. -/
def readString : List Char → Option (List Char × List Char)
  | [] => none
  | c :: rest =>
      if c = '\x22' then some ([], rest)
      else if c = '\\' then
        match rest with
        | 'u' :: h1 :: h2 :: h3 :: h4 :: rest =>
            match hex4? h1 h2 h3 h4 with
            | none => none
            | some n =>
                if 0xD800 ≤ n ∧ n < 0xDC00 then
                  match rest with
                  | '\\' :: 'u' :: l1 :: l2 :: l3 :: l4 :: rest =>
                      match hex4? l1 l2 l3 l4 with
                      | none => none
                      | some m =>
                          if 0xDC00 ≤ m ∧ m < 0xE000 then
                            (readString rest).map fun r =>
                              (Char.ofNat (0x10000 + (n - 0xD800) * 0x400 + (m - 0xDC00)) :: r.1,
                                r.2)
                          else none
                  | _ => none
                else if 0xDC00 ≤ n ∧ n < 0xE000 then none
                else (readString rest).map fun r => (Char.ofNat n :: r.1, r.2)
        | e :: rest =>
            match simpleEscape? e with
            | none => none
            | some d => (readString rest).map fun r => (d :: r.1, r.2)
        | [] => none
      else if c.toNat < 0x20 then none
      else (readString rest).map fun r => (c :: r.1, r.2)

/-- The text behind a word it starts with. -/
def readWord (word : List Char) (value : Json) (input : List Char) : Option (Json × List Char) :=
  if input.take word.length = word then some (value, input.drop word.length) else none

mutual

/-- The value at the start of a text and the text behind it. -/
def readValue : Nat → List Char → Option (Json × List Char)
  | 0, _ => none
  | fuel + 1, input =>
      match skipBlanks input with
      | [] => none
      | c :: rest =>
          if c = 'n' then readWord "ull".toList null rest
          else if c = 't' then readWord "rue".toList (bool true) rest
          else if c = 'f' then readWord "alse".toList (bool false) rest
          else if c = '\x22' then
            (readString rest).map fun r => (text (String.ofList r.1), r.2)
          else if c = '[' then
            match skipBlanks rest with
            | ']' :: behind => some (array [], behind)
            | _ => (readItems fuel rest).map fun r => (array r.1, r.2)
          else if c = '\x7b' then
            match skipBlanks rest with
            | '\x7d' :: behind => some (object [], behind)
            | _ => (readMembers fuel rest).map fun r => (object r.1, r.2)
          else JsonNumber.read (c :: rest)

/-- One or more items of an array, and the text behind its closing bracket. -/
def readItems : Nat → List Char → Option (List Json × List Char)
  | 0, _ => none
  | fuel + 1, input =>
      match readValue fuel input with
      | none => none
      | some (item, behind) =>
          match skipBlanks behind with
          | ']' :: behind => some ([item], behind)
          | ',' :: behind => (readItems fuel behind).map fun r => (item :: r.1, r.2)
          | _ => none

/-- One or more members of an object, and the text behind its closing brace. -/
def readMembers : Nat → List Char → Option (List (String × Json) × List Char)
  | 0, _ => none
  | fuel + 1, input =>
      match skipBlanks input with
      | '\x22' :: rest =>
          match readString rest with
          | none => none
          | some (name, behind) =>
              match skipBlanks behind with
              | ':' :: behind =>
                  match readValue fuel behind with
                  | none => none
                  | some (value, behind) =>
                      match skipBlanks behind with
                      | '\x7d' :: behind => some ([(String.ofList name, value)], behind)
                      | ',' :: behind =>
                          (readMembers fuel behind).map fun r =>
                            ((String.ofList name, value) :: r.1, r.2)
                      | _ => none
              | _ => none
      | _ => none

end

/-- The value that a whole text spells, with blanks around it. -/
def read (input : String) : Option Json :=
  match readValue (2 * input.length + 2) input.toList with
  | some (value, behind) => if (skipBlanks behind).isEmpty then some value else none
  | none => none

end Json

end TreeSync
