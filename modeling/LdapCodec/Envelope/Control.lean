import LdapCodec.Ber.Fields
import LdapCodec.Envelope
import LdapCodec.Refusal

namespace LdapCodec

open Ber

/-- A control: semantics attached to a request or a response. A peer that does not know a
critical control has to fail the operation. -/
structure Control where
  oid : String
  critical : Bool
  value : Option Bytes
  deriving DecidableEq, Repr

namespace Control

def build (oid : String) (critical : Bool) (value : Option Bytes) : Except Refusal Control :=
  if oid = "" then .error (.emptyOid "control") else .ok ⟨oid, critical, value⟩

def withCriticality (c : Control) (critical : Bool) : Control := { c with critical }

def toElement (c : Control) : Element :=
  .sequence ([.text c.oid] ++ (if c.critical then [.boolean true] else []) ++
    (c.value.map Element.octetString).toList)

def ofElement (e : Element) : Except DecodeError Control := do
  let children ← within "Control" e.asSequence
  checkCount children 1 3 "Control"
  match children with
  | [] => .error (.invalidElementCount "Control must have 1 to 3 elements, got 0")
  | first :: rest =>
    if first.tag ≠ .octetString then
      .error (.invalidElementType
        s!"Control type must be an OCTET STRING, got {first.tag.describe}")
    else
      let oid ← within "Control type" first.asText
      if oid = "" then .error (.decoding "Control type is empty")
      else
        let (critical, value) ← optionalFields s!"control {oid}"
          .boolean (fun e ↦ within "Control criticality" e.asBoolean)
          .octetString Element.asOctets rest
        .ok ⟨oid, critical.getD false, value⟩

instance : Envelope Control Bool where
  kind := "control"
  oid? c := some c.oid
  header := critical
  value? := value
  make oid critical value := ⟨oid, critical, value⟩
  withValue c value := { c with value }
  toElement := toElement
  ofElement := ofElement
  make_of_oid? := by
    rintro ⟨oid, critical, value⟩ o h
    cases h
    rfl

def listElement (controls : List Control) : Element := .sequence (controls.map toElement)

/-- Every control of a list. The tag of the list is free, as messages have it as a field. -/
def ofListElement (e : Element) : Except DecodeError (List Control) := do
  let children ← within "Controls" e.asChildren
  children.mapM ofElement

end Control

end LdapCodec
