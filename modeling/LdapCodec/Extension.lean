import LdapCodec.Document

namespace LdapCodec

open Json

/-- The value that an element was received with, or nothing for an element that was built
here. Elements are compared without it: equal fields may arrive in different octets. -/
structure Received where
  value : Option (Option Bytes)
  deriving Repr

namespace Received

instance : BEq Received := ⟨fun _ _ ↦ true⟩

def nothing : Received := ⟨none⟩

def of (value : Option Bytes) : Received := ⟨some value⟩

def isKept (r : Received) : Bool := r.value.isSome

def orElse (r : Received) (encoded : Option Bytes) : Option Bytes := r.value.getD encoded

end Received

/-- An element with a meaning: the header of its envelope, what its value says, and the
value as it was received. -/
structure Typed (H α : Type) where
  header : H
  payload : α
  received : Received
  deriving BEq, Repr

namespace Typed

variable {H α : Type}

def new (header : H) (payload : α) : Typed H α := ⟨header, payload, .nothing⟩

def withHeader (x : Typed H α) (header : H) : Typed H α := { x with header }

def Same (x y : Typed H α) : Prop := x.header = y.header ∧ x.payload = y.payload

end Typed

structure Structured (α : Type) where
  fields : List String
  write : α → Option Value
  read : (strict : Bool) → Members → Except DecodeError α

/-- A meaning for envelopes of kind `E`: the identifier that names it, and how its value is
written and read. An element holds on to the value that it came with if `keepsValue`, and is
written anew from what it says otherwise. -/
structure Extension (E H α : Type) where
  oid : String
  name : String
  keepsValue : Bool
  encodeValue : α → Option Bytes
  decodeValue : H → Option Bytes → Except DecodeError α
  structured : Option (Structured α)

namespace Extension

variable {E H α : Type} (x : Extension E H α)

def keep (r : Received) : Received := if x.keepsValue then r else .nothing

@[simp]
theorem keep_nothing : x.keep .nothing = .nothing := ite_self _

variable [Envelope E H]

def decode (e : E) : Except DecodeError (Typed H α) := do
  Envelope.checkOid e x.oid x.name
  let payload ← x.decodeValue (Envelope.header e) (Envelope.value? e)
  .ok ⟨Envelope.header e, payload, x.keep (.of (Envelope.value? e))⟩

/-- The envelope of an element. A value that was kept goes back as it came. -/
def toEnvelope (t : Typed H α) : E :=
  Envelope.make x.oid t.header ((x.keep t.received).orElse (x.encodeValue t.payload))

def toJson? (t : Typed H α) : Option Value := x.structured.bind (·.write t.payload)

def ofJson (header : E) (v : Value) (strict : Bool) : Except DecodeError (Typed H α) :=
  match x.structured with
  | none => .error (.decoding s!"{x.name} does not support a structured value")
  | some form => do
    Envelope.checkOid header x.oid x.name
    let ms ← checkFields v form.fields strict x.name
    let payload ← form.read strict ms
    .ok (.new (Envelope.header header) payload)

variable [Documented E]

def toDocument (t : Typed H α) : Value :=
  Document.ofEnvelope (x.toEnvelope t) (some x.name) (x.toJson? t)

def ofDocument (strict : Bool) (document : Value) : Except DecodeError (Typed H α) := do
  let parsed ← Document.parse (E := E) strict document
  match parsed.structured with
  | some v => x.ofJson parsed.envelope v strict
  | none => x.decode parsed.envelope

end Extension

/-- The value of a result, which only operations that failed come without. -/
def resultValue {α : Type} (name : String) (read : Option Bytes → Except DecodeError α)
    (result : OperationResult) (value : Option Bytes) : Except DecodeError (Option α) :=
  match value with
  | none =>
    if result.code.isSuccess then
      .error (.missingValue s!"Successful {name} requires a value")
    else .ok none
  | some bytes => do
    let x ← read (some bytes)
    .ok (some x)

def failedResult {α : Type} (what : String) (result : OperationResult) :
    Except Refusal (Typed OperationResult (Option α)) :=
  if result.code.isSuccess then .error (.successWithout what) else .ok (.new result none)

def invalidValue (name : String) : DecodeError :=
  .decoding s!"Invalid {name} value: a field is missing or of the wrong type"

def orInvalid {α : Type} (name : String) (x : Option α) : Except DecodeError α :=
  match x with
  | some a => .ok a
  | none => .error (invalidValue name)

end LdapCodec
