import LdapCodec.Extension

namespace LdapCodec

open Json

/-- Controls in the form of documents, which are looked into only on demand. -/
structure JsonFormatted where
  controls : List Value
  deriving BEq, Repr

namespace JsonFormatted

def fields : List String := ["controls"]

def toValue (x : JsonFormatted) : Value := .object [("controls", .array x.controls)]

def ofMembers (name : String) (ms : Members) : Except DecodeError JsonFormatted := do
  .ok ⟨← orInvalid name (ms.required Value.asItems? "controls")⟩

def decode (name : String) (bytes : Bytes) : Except DecodeError JsonFormatted :=
  match (Utf8.decode bytes).toOption.bind Value.read? with
  | none => .error (.decoding s!"{name} value is not valid JSON: not a JSON text")
  | some v => do
    ofMembers name (← checkFields v fields false name)

def extension (oid name : String) : Extension Control Bool JsonFormatted where
  oid := oid
  name := name
  keepsValue := true
  encodeValue x := some (Utf8.encode x.toValue.render)
  decodeValue _ value := do
    decode name (← Payload.require value name)
  structured := some
    { fields
      write := fun x ↦ some x.toValue
      read := fun _ ms ↦ ofMembers name ms }

def request : Extension Control Bool JsonFormatted :=
  extension "1.3.6.1.4.1.30221.2.5.64" "JSON-Formatted Request Control"

def response : Extension Control Bool JsonFormatted :=
  extension "1.3.6.1.4.1.30221.2.5.65" "JSON-Formatted Response Control"

def build (critical : Bool) (controls : List Value) : Typed Bool JsonFormatted :=
  .new critical ⟨controls⟩

end JsonFormatted

end LdapCodec
