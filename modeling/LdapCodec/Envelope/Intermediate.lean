import LdapCodec.Ber.Fields
import LdapCodec.Envelope

namespace LdapCodec

open Ber

structure IntermediateResponse where
  oid : Option String
  value : Option Bytes
  deriving DecidableEq, Repr

namespace IntermediateResponse

def tag : Tag := .application true 25

def nameTag : Tag := .contextSpecific false 0

def valueTag : Tag := .contextSpecific false 1

def toElement (r : IntermediateResponse) : Element :=
  .ofChildren tag ((r.oid.map fun o ↦ (Element.text o).context 0).toList ++
    (r.value.map fun v ↦ (Element.octetString v).context 1).toList)

def ofElement (e : Element) : Except DecodeError IntermediateResponse := do
  e.expectTag tag
  let children ← e.asChildren
  checkCount children 0 2 "Intermediate response"
  let (oid, value) ← optionalFields "intermediate response"
    nameTag (fun e ↦ within "Response name" e.asText) valueTag Element.asOctets children
  .ok ⟨oid, value⟩

instance : Envelope IntermediateResponse Unit where
  kind := "intermediate response"
  oid? := oid
  header _ := ()
  value? := value
  make oid _ value := ⟨some oid, value⟩
  withValue r value := { r with value }
  toElement := toElement
  ofElement := ofElement
  make_of_oid? := by
    rintro ⟨oid, value⟩ o h
    cases h
    rfl

end IntermediateResponse

end LdapCodec
