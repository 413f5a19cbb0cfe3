namespace LdapCodec

inductive DecodeError.Kind where
  | malformedLength
  | unexpectedTag
  | missingValue
  | invalidElementCount
  | invalidElementType
  | valueOutOfRange
  | unrecognizedField
  | decoding
  deriving DecidableEq, Repr

/-- Why octets, an envelope or a document were refused: the kind is for programs,
the message for people. -/
structure DecodeError where
  kind : DecodeError.Kind
  message : String
  deriving DecidableEq, Repr

namespace DecodeError

def malformedLength (message : String) : DecodeError := ⟨.malformedLength, message⟩
def unexpectedTag (message : String) : DecodeError := ⟨.unexpectedTag, message⟩
def missingValue (message : String) : DecodeError := ⟨.missingValue, message⟩
def invalidElementCount (message : String) : DecodeError := ⟨.invalidElementCount, message⟩
def invalidElementType (message : String) : DecodeError := ⟨.invalidElementType, message⟩
def valueOutOfRange (message : String) : DecodeError := ⟨.valueOutOfRange, message⟩
def unrecognizedField (message : String) : DecodeError := ⟨.unrecognizedField, message⟩
def decoding (message : String) : DecodeError := ⟨.decoding, message⟩

def Kind.label : Kind → String
  | .malformedLength => "Malformed length"
  | .unexpectedTag => "Unexpected tag"
  | .missingValue => "Missing value"
  | .invalidElementCount => "Invalid element count"
  | .invalidElementType => "Invalid element type"
  | .valueOutOfRange => "Value out of range"
  | .unrecognizedField => "Unrecognized field"
  | .decoding => "Decoding error"

def describe (e : DecodeError) : String := s!"{e.kind.label}: {e.message}"

def within (what : String) (e : DecodeError) : DecodeError :=
  { e with message := s!"{what}: {e.message}" }

@[simp]
theorem kind_within (what : String) (e : DecodeError) : (e.within what).kind = e.kind := rfl

end DecodeError

def within {α : Type} (what : String) (r : Except DecodeError α) : Except DecodeError α :=
  r.mapError (DecodeError.within what)

inductive Failure where
  | endOfInput
  | elementTooLarge (length max : Nat)
  | invalidArgument (reason : String)
  | decode (error : DecodeError)
  deriving DecidableEq, Repr

def Failure.describe : Failure → String
  | .endOfInput => "I/O error: unexpected end of input"
  | .elementTooLarge length max => s!"Element too large: {length} bytes (max {max})"
  | .invalidArgument reason => s!"Invalid argument: {reason}"
  | .decode error => error.describe

end LdapCodec
