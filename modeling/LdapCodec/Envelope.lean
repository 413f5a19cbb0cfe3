import LdapCodec.Ber.Decode

namespace LdapCodec

open Ber

/-- A protocol element that names its meaning by an object identifier and carries an
opaque value. The header is what it holds besides. -/
class Envelope (E : Type) (H : outParam Type) where
  kind : String
  oid? : E → Option String
  header : E → H
  value? : E → Option Bytes
  make : String → H → Option Bytes → E
  withValue : E → Option Bytes → E
  toElement : E → Element
  ofElement : Element → Except DecodeError E
  oid?_make : ∀ o h v, oid? (make o h v) = some o := by intros; rfl
  header_make : ∀ o h v, header (make o h v) = h := by intros; rfl
  value?_make : ∀ o h v, value? (make o h v) = v := by intros; rfl
  make_of_oid? : ∀ e o, oid? e = some o → make o (header e) (value? e) = e
  header_withValue : ∀ e v, header (withValue e v) = header e := by intros; rfl
  oid?_withValue : ∀ e v, oid? (withValue e v) = oid? e := by intros; rfl
  value?_withValue : ∀ e v, value? (withValue e v) = v := by intros; rfl

namespace Envelope

variable {E H : Type} [Envelope E H]

def encode (e : E) : Bytes := (toElement e).encode

def decode (bytes : Bytes) : Except DecodeError E := do
  ofElement (← Element.decode bytes)

def checkOid (e : E) (expected name : String) : Except DecodeError Unit :=
  match oid? e with
  | some oid =>
    if oid = expected then .ok ()
    else
      .error (.decoding
        s!"Cannot decode {kind E} {oid} as {name} (expected OID {expected})")
  | none => .error (.decoding s!"Cannot decode {kind E} without an OID as {name}")

end Envelope

namespace Payload

def require (value : Option Bytes) (name : String) : Except DecodeError Bytes :=
  match value with
  | some bytes => .ok bytes
  | none => .error (.missingValue s!"{name} requires a value")

def forbid (value : Option Bytes) (name : String) : Except DecodeError Unit :=
  match value with
  | some _ => .error (.decoding s!"{name} must not have a value")
  | none => .ok ()

def element (value : Option Bytes) (name : String) : Except DecodeError Element := do
  let bytes ← require value name
  within name (Element.decode bytes)

def fields (value : Option Bytes) (name : String) (min max : Nat) :
    Except DecodeError (List Element) := do
  let e ← element value name
  let children ← within name e.asSequence
  checkCount children min max name
  .ok children

end Payload

end LdapCodec
