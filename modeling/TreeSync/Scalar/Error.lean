import TreeSync.Number.Integer

/-!
# Failed conversions

A value does not become a value of another type either because its form does
not fit or because its magnitude does not.
-/

namespace TreeSync

/-- Why the form of a value does not fit its destination. -/
inductive Mismatch where
  /-- A truth value is spelled `true` or `false`. -/
  | expectedBool
  /-- A character is a text of one character. -/
  | expectedCharacter
  /-- The text is no integer. -/
  | badInteger (fault : IntegerFault)
  /-- The text is no floating-point number. -/
  | badFloat
  /-- The number has a fraction or is not finite. -/
  | notIntegral
  /-- The number is no code point of a character. -/
  | notCodePoint
  /-- No rule leads from one scalar kind to the other. -/
  | incompatibleKinds
  /-- The types differ and no conversion applies. -/
  | typeDiffers
  /-- The destination is no scalar slot. -/
  | destinationNotScalar
  /-- A record is written through a structured key only. -/
  | recordNeedsKey
  /-- A map or list takes no literal. -/
  | containerNotScalar
  /-- The value written into a scalar slot is no scalar. -/
  | notScalar
  /-- The value written into a dynamic slot is no scalar. -/
  | dynamicTakesScalars
  /-- The destination holds neither maps nor sequences, or not this one. -/
  | shapeDoesNotFit
  deriving DecidableEq, Repr

namespace Mismatch

/-- The reason as a phrase. -/
def message : Mismatch → String
  | expectedBool => "expected true or false"
  | expectedCharacter => "expected a single character"
  | badInteger fault => fault.message
  | badFloat => "invalid float literal"
  | notIntegral => "not an integral value"
  | notCodePoint => "not a unicode scalar value"
  | incompatibleKinds => "incompatible scalar kinds"
  | typeDiffers => "value type differs"
  | destinationNotScalar => "destination is not a scalar"
  | recordNeedsKey => "a struct needs a structured literal"
  | containerNotScalar => "a container cannot hold a scalar"
  | notScalar => "not a scalar"
  | dynamicTakesScalars => "only scalars convert into dynamic slots"
  | shapeDoesNotFit => "destination cannot hold this shape"

end Mismatch

/-- Why a value could not be converted. -/
inductive ConversionError where
  /-- The form of `value` does not fit `target`. -/
  | mismatch (value target : String) (reason : Mismatch)
  /-- The number `value` lies outside of the range of `target`. -/
  | overflow (value target : String)
  deriving DecidableEq, Repr

namespace ConversionError

/-- The error as one line of text. -/
def message : ConversionError → String
  | mismatch value target reason =>
      "Cannot convert '" ++ value ++ "' to " ++ target ++ ": " ++ reason.message
  | overflow value target => "Value '" ++ value ++ "' overflows " ++ target

end ConversionError

end TreeSync
