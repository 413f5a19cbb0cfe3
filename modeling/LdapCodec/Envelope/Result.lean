import LdapCodec.Ber.Fields
import LdapCodec.Envelope
import LdapCodec.ResultCode

namespace LdapCodec

open Ber

/-- How an operation ended. Texts that are empty on the wire are absent here. -/
structure OperationResult where
  code : ResultCode
  matchedDn : Option String
  diagnostic : Option String
  referrals : List String
  deriving DecidableEq, Repr

namespace OperationResult

def ofCode (code : ResultCode) : OperationResult := ⟨code, none, none, []⟩

def success : OperationResult := ofCode .success

def referralTag : Tag := .contextSpecific true 3

def toComponents (r : OperationResult) : List Element :=
  [.enumerated r.code.value.toInt, .text (r.matchedDn.getD ""), .text (r.diagnostic.getD "")] ++
    (if r.referrals = [] then []
     else [(Element.sequence (r.referrals.map Element.text)).context 3])

def optionalText (e : Element) (what : String) : Except DecodeError (Option String) :=
  if e.tag ≠ .octetString then
    .error (.invalidElementType s!"{what} must be an OCTET STRING, got {e.tag.describe}")
  else do
    let s ← within what e.asText
    .ok (if s = "" then none else some s)

def ofComponents : List Element → Except DecodeError (OperationResult × List Element)
  | codeField :: matchedField :: diagnosticField :: rest => do
    let v ← within "Result code" codeField.asInteger
    match Word.ofInt? v with
    | none => .error (.valueOutOfRange s!"Result code {v} out of range")
    | some code =>
      let matchedDn ← optionalText matchedField "Matched DN"
      let diagnostic ← optionalText diagnosticField "Diagnostic message"
      let (referrals, rest) ← optionalField referralTag readReferrals rest
      .ok (⟨⟨code⟩, matchedDn, diagnostic, referrals.getD []⟩, rest)
  | components =>
    .error (.invalidElementCount
      s!"LDAPResult must have at least 3 elements, got {components.length}")
where
  readReferrals (e : Element) : Except DecodeError (List String) := do
    (← e.asChildren).mapM fun url ↦ within "Referral URL" url.asText

end OperationResult

structure ExtendedResult where
  result : OperationResult
  oid : Option String
  value : Option Bytes
  deriving DecidableEq, Repr

namespace ExtendedResult

def tag : Tag := .application true 24

def nameTag : Tag := .contextSpecific false 10

def valueTag : Tag := .contextSpecific false 11

def toElement (r : ExtendedResult) : Element :=
  .ofChildren tag (r.result.toComponents ++
    (r.oid.map fun o ↦ (Element.text o).context 10).toList ++
    (r.value.map fun v ↦ (Element.octetString v).context 11).toList)

def ofElement (e : Element) : Except DecodeError ExtendedResult := do
  e.expectTag tag
  let children ← e.asChildren
  checkCount children 3 6 "Extended result"
  let (result, rest) ← OperationResult.ofComponents children
  let (oid, value) ← optionalFields "extended result"
    nameTag (fun e ↦ within "Response name" e.asText) valueTag Element.asOctets rest
  .ok ⟨result, oid, value⟩

instance : Envelope ExtendedResult OperationResult where
  kind := "extended result"
  oid? := oid
  header := result
  value? := value
  make oid result value := ⟨result, some oid, value⟩
  withValue r value := { r with value }
  toElement := toElement
  ofElement := ofElement
  make_of_oid? := by
    rintro ⟨result, oid, value⟩ o h
    cases h
    rfl

end ExtendedResult

end LdapCodec
