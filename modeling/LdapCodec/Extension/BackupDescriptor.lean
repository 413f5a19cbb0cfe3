import LdapCodec.Extension

namespace LdapCodec

open Ber Json

structure BackupQuery where
  baseDn : String
  deriving DecidableEq, Repr

namespace BackupQuery

def name : String := "Get Backup Compatibility Descriptor Extended Request"

def encode (x : BackupQuery) : Element := .sequence [(Element.text x.baseDn).context 0]

def decode (fields : List Element) : Except DecodeError BackupQuery := do
  match fields with
  | first :: _ =>
    expectField first (.contextSpecific false 0) "Backup compatibility base DN"
    .ok ⟨← within "Backup compatibility base DN" first.asText⟩
  | [] => .error (.invalidElementCount s!"{name} must have 1 elements, got 0")

def structured : Structured BackupQuery where
  fields := ["base-dn"]
  write x := some (.object [("base-dn", .string x.baseDn)])
  read _ ms := do
    .ok ⟨← orInvalid name (ms.required Value.asText? "base-dn")⟩

def extension : Extension ExtendedRequest Unit BackupQuery where
  oid := "1.3.6.1.4.1.30221.2.6.30"
  name := name
  keepsValue := true
  encodeValue x := some (encode x).encode
  decodeValue _ value := do
    decode (← Payload.fields value name 1 1)
  structured := some structured

def build (baseDn : String) : Typed Unit BackupQuery := .new () ⟨baseDn⟩

end BackupQuery

/-- An opaque descriptor to compare with that of a backup, and its properties for people. -/
structure BackupDescriptor where
  descriptor : Bytes
  properties : List String
  deriving DecidableEq, Repr

namespace BackupDescriptor

def name : String := "Get Backup Compatibility Descriptor Extended Result"

def encode (x : BackupDescriptor) : Element :=
  .sequence ([(Element.octetString x.descriptor).context 0] ++
    (if x.properties = [] then []
     else [(Element.sequence (x.properties.map Element.text)).context 1]))

def decode (fields : List Element) : Except DecodeError BackupDescriptor := do
  match fields with
  | first :: rest =>
    expectField first (.contextSpecific false 0) "Backup compatibility descriptor"
    let descriptor ← first.asOctets
    let (properties, rest) ← optionalField (.contextSpecific true 1) readProperties rest
    noMoreFields name rest
    .ok ⟨descriptor, properties.getD []⟩
  | [] => .error (.invalidElementCount s!"{name} must have 1 to 2 elements, got 0")
where
  readProperties (e : Element) : Except DecodeError (List String) := do
    (← e.asChildren).mapM (textField · "Backup compatibility property")

def decodeValue : OperationResult → Option Bytes → Except DecodeError (Option BackupDescriptor) :=
  resultValue name fun value ↦ do decode (← Payload.fields value name 1 2)

def structured : Structured (Option BackupDescriptor) where
  fields := ["descriptor-base64", "properties"]
  write x := x.map fun x ↦
    let ms : Members := [("descriptor-base64", .string (Base64.encode x.descriptor))]
    if x.properties = [] then .object ms
    else .object (ms.insert "properties" (.ofTexts x.properties))
  read _ ms := do
    let text ← orInvalid name (ms.required Value.asText? "descriptor-base64")
    let properties ← orInvalid name (ms.defaulted Value.asTexts? [] "properties")
    let descriptor ← decodeBase64 text name
    .ok (some ⟨descriptor, properties⟩)

def extension : Extension ExtendedResult OperationResult (Option BackupDescriptor) where
  oid := "1.3.6.1.4.1.30221.2.6.31"
  name := name
  keepsValue := true
  encodeValue x := x.map fun x ↦ (encode x).encode
  decodeValue := decodeValue
  structured := some structured

def build (descriptor : Bytes) (properties : List String) :
    Typed OperationResult (Option BackupDescriptor) :=
  .new .success (some ⟨descriptor, properties⟩)

def failure (result : OperationResult) :
    Except Refusal (Typed OperationResult (Option BackupDescriptor)) :=
  failedResult "a descriptor" result

end BackupDescriptor

end LdapCodec
