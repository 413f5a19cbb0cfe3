import LdapCodec.Extension

namespace LdapCodec

open Ber Json

/-- Changes that a client asked for are no longer there. -/
structure MissingChangelog where
  message : Option String
  deriving DecidableEq, Repr

namespace MissingChangelog

def name : String := "Missing Changelog Entries Intermediate Response"

def messageTag : Tag := .contextSpecific false 0

def encode (x : MissingChangelog) : Element :=
  .sequence (x.message.map fun m ↦ (Element.text m).context 0).toList

def decode (fields : List Element) : Except DecodeError MissingChangelog := do
  let (message, rest) ←
    optionalField messageTag (fun e ↦ within "Missing changelog message" e.asText) fields
  noMoreFields name rest
  .ok ⟨message⟩

def structured : Structured MissingChangelog where
  fields := ["message"]
  write x := some (.object (Members.insertText "message" x.message []))
  read _ ms := do
    .ok ⟨← orInvalid name (ms.optional Value.asText? "message")⟩

def extension : Extension IntermediateResponse Unit MissingChangelog where
  oid := "1.3.6.1.4.1.30221.2.6.12"
  name := name
  keepsValue := true
  encodeValue x := some (encode x).encode
  decodeValue _ value := do
    decode (← Payload.fields value name 0 1)
  structured := some structured

def build (message : Option String) : Typed Unit MissingChangelog := .new () ⟨message⟩

end MissingChangelog

end LdapCodec
