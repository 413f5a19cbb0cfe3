import LdapCodec.Envelope.Control
import LdapCodec.Envelope.Intermediate
import LdapCodec.Envelope.Request
import LdapCodec.Envelope.Result
import LdapCodec.Json.Fields
import LdapCodec.Oid

namespace LdapCodec

open Json

structure Frame (E : Type) where
  oid : Option String
  name : Option String
  attach : Option Bytes → E

/-- A document read, before its structured value is looked into. A document with a value
in octets has no structured one. -/
structure Parsed (E : Type) where
  envelope : E
  name : Option String
  structured : Option Value
  deriving BEq, Repr

/-- Envelopes that can be written as JSON objects. `ownKeys` are those of the header. -/
class Documented (E : Type) {H : outParam Type} [Envelope E H] where
  ownKeys : List String
  nameKey : String
  outline : E → Members
  frame? : Members → Option (Frame E)

namespace Document

def oidKey : String := "oid"
def octetsKey : String := "value-base64"
def structuredKey : String := "value-json"

variable {E H : Type} [Envelope E H] [Documented E]

open Envelope (kind)

variable (E) in
def keys : List String :=
  oidKey :: Documented.nameKey E :: octetsKey :: structuredKey :: Documented.ownKeys E

/-- The document of an envelope. Its value is written as `structured`, if that is given,
and in octets otherwise; without a value neither is written. -/
def ofEnvelope (e : E) (name : Option String) (structured : Option Value) : Value :=
  let ms := (Documented.outline e).insertText oidKey (Envelope.oid? e)
  let ms := ms.insertText (Documented.nameKey E) name
  match Envelope.value? e, structured with
  | none, _ => .object ms
  | some _, some v => .object (ms.insert structuredKey v)
  | some bytes, none => .object (ms.insert octetsKey (.string (Base64.encode bytes)))

def checkOid (oid : Option String) (strict : Bool) (kind : String) : Except DecodeError Unit :=
  match oid with
  | none => .ok ()
  | some oid =>
    if oid = "" then .error (.decoding s!"Empty OID in {kind} document")
    else if strict then (within kind (Oid.parse oid)).map fun _ ↦ ()
    else .ok ()

def parse (strict : Bool) (document : Value) : Except DecodeError (Parsed E) := do
  match document.asMembers? with
  | none => .error (.decoding s!"{kind E} document must be a JSON object")
  | some ms =>
    match Documented.frame? (E := E) ms, ms.optional Value.asText? octetsKey with
    | some frame, some octets =>
      match ms.unknown? (keys E), strict with
      | some key, true =>
        .error (.unrecognizedField s!"Unrecognized field '{key}' in {kind E} document")
      | _, _ =>
        checkOid frame.oid strict (kind E)
        match octets with
        | some text =>
          let bytes ← decodeBase64 text (kind E)
          .ok ⟨frame.attach (some bytes), frame.name, none⟩
        | none =>
          let structured := (ms.get? structuredKey).filter fun v ↦ !v matches .null
          .ok ⟨frame.attach none, frame.name, structured⟩
    | _, _ =>
      .error (.decoding s!"Invalid {kind E} document: a key is missing or of the wrong type")

end Document

open Document

instance : Documented Control where
  ownKeys := ["criticality"]
  nameKey := "control-name"
  outline c := [("criticality", .bool c.critical)]
  frame? ms := do
    let oid ← ms.required Value.asText? oidKey
    let name ← ms.optional Value.asText? "control-name"
    let critical ← ms.required Value.asBool? "criticality"
    some ⟨some oid, name, fun value ↦ ⟨oid, critical, value⟩⟩

instance : Documented ExtendedRequest where
  ownKeys := []
  nameKey := "request-name"
  outline _ := []
  frame? ms := do
    let oid ← ms.required Value.asText? oidKey
    let name ← ms.optional Value.asText? "request-name"
    some ⟨some oid, name, fun value ↦ ⟨oid, value⟩⟩

instance : Documented ExtendedResult where
  ownKeys := ["result-code", "matched-dn", "diagnostic-message", "referral-urls"]
  nameKey := "response-name"
  outline r :=
    let ms : Members := [("result-code", .ofInt r.result.code.value.toInt)]
    let ms := ms.insertText "matched-dn" r.result.matchedDn
    let ms := ms.insertText "diagnostic-message" r.result.diagnostic
    if r.result.referrals = [] then ms
    else ms.insert "referral-urls" (.ofTexts r.result.referrals)
  frame? ms := do
    let code ← ms.required Value.asInt32? "result-code"
    let matchedDn ← ms.optional Value.asText? "matched-dn"
    let diagnostic ← ms.optional Value.asText? "diagnostic-message"
    let referrals ← ms.defaulted Value.asTexts? [] "referral-urls"
    let oid ← ms.optional Value.asText? oidKey
    let name ← ms.optional Value.asText? "response-name"
    let result : OperationResult :=
      ⟨⟨code⟩, matchedDn.filter (· != ""), diagnostic.filter (· != ""), referrals⟩
    some ⟨oid, name, fun value ↦ ⟨result, oid, value⟩⟩

instance : Documented IntermediateResponse where
  ownKeys := []
  nameKey := "response-name"
  outline _ := []
  frame? ms := do
    let oid ← ms.optional Value.asText? oidKey
    let name ← ms.optional Value.asText? "response-name"
    some ⟨oid, name, fun value ↦ ⟨oid, value⟩⟩

end LdapCodec
