import LdapCodec.Extension

namespace LdapCodec

open Json

/-- Marks an update as part of a transaction. The value is the identifier itself. -/
structure TransactionSpecification where
  transactionId : Bytes
  deriving DecidableEq, Repr

namespace TransactionSpecification

def name : String := "Transaction Specification Request Control"

def structured : Structured TransactionSpecification where
  fields := ["transaction-id-base64"]
  write x := some (.object [("transaction-id-base64", .string (Base64.encode x.transactionId))])
  read _ ms := do
    let text ← orInvalid name (ms.required Value.asText? "transaction-id-base64")
    .ok ⟨← decodeBase64 text name⟩

def extension : Extension Control Bool TransactionSpecification where
  oid := "1.3.6.1.1.21.2"
  name := name
  keepsValue := false
  encodeValue x := some x.transactionId
  decodeValue _ value := do
    .ok ⟨← Payload.require value name⟩
  structured := some structured

def build (critical : Bool) (transactionId : Bytes) : Typed Bool TransactionSpecification :=
  .new critical ⟨transactionId⟩

def defaultCriticality : Bool := true

end TransactionSpecification

end LdapCodec
