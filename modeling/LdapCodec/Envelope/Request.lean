import LdapCodec.Ber.Fields
import LdapCodec.Envelope
import LdapCodec.Refusal

namespace LdapCodec

open Ber

structure ExtendedRequest where
  oid : String
  value : Option Bytes
  deriving DecidableEq, Repr

namespace ExtendedRequest

def build (oid : String) (value : Option Bytes) : Except Refusal ExtendedRequest :=
  if oid = "" then .error (.emptyOid "extended request") else .ok ⟨oid, value⟩

def tag : Tag := .application true 23

def nameTag : Tag := .contextSpecific false 0

def valueTag : Tag := .contextSpecific false 1

def toElement (r : ExtendedRequest) : Element :=
  .ofChildren tag ([(Element.text r.oid).context 0] ++
    (r.value.map fun v ↦ (Element.octetString v).context 1).toList)

def ofElement (e : Element) : Except DecodeError ExtendedRequest := do
  e.expectTag tag
  let children ← e.asChildren
  checkCount children 1 2 "Extended request"
  match children with
  | [] => .error (.invalidElementCount "Extended request must have 1 to 2 elements, got 0")
  | first :: rest =>
    if first.tag ≠ nameTag then
      .error (.invalidElementType
        s!"Extended request name must be [0], got {first.tag.describe}")
    else
      let oid ← within "Extended request name" first.asText
      if oid = "" then .error (.decoding "Extended request name is empty")
      else
        let (value, rest) ← optionalField valueTag Element.asOctets rest
        noMoreFields s!"extended request {oid}" rest
        .ok ⟨oid, value⟩

instance : Envelope ExtendedRequest Unit where
  kind := "extended request"
  oid? r := some r.oid
  header _ := ()
  value? := value
  make oid _ value := ⟨oid, value⟩
  withValue r value := { r with value }
  toElement := toElement
  ofElement := ofElement
  make_of_oid? := by
    rintro ⟨oid, value⟩ o h
    cases h
    rfl

end ExtendedRequest

end LdapCodec
