import LdapCodec.Embedded
import LdapCodec.Extension

namespace LdapCodec

open Ber Json

structure StartTransaction where
  deriving DecidableEq, Repr

namespace StartTransaction

def extension : Extension ExtendedRequest Unit StartTransaction where
  oid := "1.3.6.1.1.21.1"
  name := "Start Transaction Extended Request"
  keepsValue := false
  encodeValue _ := none
  decodeValue _ value :=
    (Payload.forbid value "Start Transaction Extended Request").map fun _ ↦ {}
  structured := none

def build : Typed Unit StartTransaction := .new () {}

end StartTransaction

/-- How the start of a transaction ended. Its result names no identifier of its own, so
that it is recognized only by the request it answers. -/
structure StartedTransaction where
  result : OperationResult
  transactionId : Option Bytes
  deriving DecidableEq, Repr

namespace StartedTransaction

def build (transactionId : Bytes) : StartedTransaction := ⟨.success, some transactionId⟩

def failure (result : OperationResult) : Except Refusal StartedTransaction :=
  if result.code.isSuccess then .error (.successWithout "a transaction identifier")
  else .ok ⟨result, none⟩

def ofResult (r : ExtendedResult) : Except DecodeError StartedTransaction :=
  if r.value = none ∧ r.result.code.isSuccess then
    .error (.missingValue
      "Successful Start Transaction Extended Result requires a transaction identifier")
  else .ok ⟨r.result, r.value⟩

def toResult (x : StartedTransaction) : ExtendedResult := ⟨x.result, none, x.transactionId⟩

end StartedTransaction

/-- Closes a transaction, keeping its updates or dropping them. -/
structure EndTransaction where
  commit : Bool
  transactionId : Bytes
  deriving DecidableEq, Repr

namespace EndTransaction

def name : String := "End Transaction Extended Request"

def encode (x : EndTransaction) : Element :=
  .sequence ((if x.commit then [] else [.boolean false]) ++ [.octetString x.transactionId])

def decode (fields : List Element) : Except DecodeError EndTransaction := do
  match fields with
  | [id] => readId true id
  | flag :: id :: _ =>
    expectField flag .boolean "Transaction commit flag"
    let commit ← flag.asBoolean
    readId commit id
  | [] => .error (.invalidElementCount s!"{name} must have 1 to 2 elements, got 0")
where
  readId (commit : Bool) (id : Element) : Except DecodeError EndTransaction := do
    expectField id .octetString "Transaction identifier"
    .ok ⟨commit, ← id.asOctets⟩

def structured : Structured EndTransaction where
  fields := ["transaction-id-base64", "commit"]
  write x := some (.object
    [("commit", .bool x.commit),
      ("transaction-id-base64", .string (Base64.encode x.transactionId))])
  read _ ms := do
    let text ← orInvalid name (ms.required Value.asText? "transaction-id-base64")
    let commit ← orInvalid name (ms.defaulted Value.asBool? true "commit")
    .ok ⟨commit, ← decodeBase64 text name⟩

def extension : Extension ExtendedRequest Unit EndTransaction where
  oid := "1.3.6.1.1.21.3"
  name := name
  keepsValue := true
  encodeValue x := some (encode x).encode
  decodeValue _ value := do
    decode (← Payload.fields value name 1 2)
  structured := some structured

def build (transactionId : Bytes) (commit : Bool) : Typed Unit EndTransaction :=
  .new () ⟨commit, transactionId⟩

end EndTransaction

/-- The controls that answer one update of a transaction, as they were received. -/
structure UpdateControls where
  messageId : Int32
  controls : Element
  deriving DecidableEq, Repr

namespace UpdateControls

def what : String := "Update controls"

def build (messageId : Int32) (controls : List Control) : UpdateControls :=
  ⟨messageId, Control.listElement controls⟩

def list (x : UpdateControls) : Except DecodeError (List Control) :=
  Control.ofListElement x.controls

def decodeControls {T : Type} (r : Registry Control T) (policy : DecodePolicy)
    (notes : List String) (x : UpdateControls) : Except DecodeError (List T) × List String :=
  Embedded.decode r policy notes x.controls

def encode (x : UpdateControls) : Element :=
  .sequence [.integer x.messageId.toInt, x.controls]

def decode (e : Element) : Except DecodeError UpdateControls := do
  expectField e .sequence what
  let children ← e.asChildren
  checkCount children 2 2 what
  match children with
  | id :: controls :: _ =>
    expectField id .integer "Update message ID"
    let messageId ← nonNegative id "Update message ID"
    expectField controls .sequence "Update controls list"
    .ok ⟨messageId, controls⟩
  | _ => .error (unexpected e what)

end UpdateControls

/-- What the end of a transaction left: the update that made it fail, and the controls
that answer its updates. -/
structure EndedTransaction where
  failedMessageId : Option Int32
  updates : List UpdateControls
  deriving DecidableEq, Repr

namespace EndedTransaction

def name : String := "End Transaction Extended Result"

def encodeValue (x : EndedTransaction) : Option Bytes :=
  let fields := (x.failedMessageId.map fun id ↦ Element.integer id.toInt).toList ++
    (if x.updates = [] then [] else [.sequence (x.updates.map UpdateControls.encode)])
  if fields = [] then none else some (Element.sequence fields).encode

def readField (x : EndedTransaction) (e : Element) :
    Except DecodeError (Nat × EndedTransaction) := do
  if e.tag = .integer then
    let id ← nonNegative e "Failed message ID"
    .ok (0, { x with failedMessageId := some id })
  else if e.tag = .sequence then
    let updates ← (← e.asChildren).mapM UpdateControls.decode
    .ok (1, { x with updates })
  else .error (unexpected e name)

def decode (fields : List Element) : Except DecodeError EndedTransaction :=
  orderedFields name readField 0 ⟨none, []⟩ fields

def decodeValue (value : Option Bytes) : Except DecodeError EndedTransaction :=
  match value with
  | none => .ok ⟨none, []⟩
  | some bytes => do
    decode (← Payload.fields (some bytes) name 0 2)

def build (result : OperationResult) (failedMessageId : Option Int32)
    (updates : List UpdateControls) : Typed OperationResult EndedTransaction :=
  .new result ⟨failedMessageId, updates⟩

def ofResult (r : ExtendedResult) : Except DecodeError (Typed OperationResult EndedTransaction) := do
  let x ← decodeValue r.value
  .ok ⟨r.result, x, .of r.value⟩

def toResult (x : Typed OperationResult EndedTransaction) : ExtendedResult :=
  ⟨x.header, none, x.received.orElse (encodeValue x.payload)⟩

end EndedTransaction

end LdapCodec
