import LdapCodec.DecodePolicy
import LdapCodec.Registry

namespace LdapCodec

open Ber Json

namespace Embedded

variable {T : Type}

/-- A failure, and whether a policy lets it pass: `note` is what is then noted of the item. -/
structure Fault where
  fatal : Bool
  error : DecodeError
  note : String

def unparsable (policy : DecodePolicy) (index : Nat) (e : DecodeError) : Fault where
  fatal := policy.throwUnparsable
  error := e.within s!"Embedded control {index}"
  note := s!"Skipped unparsable embedded control {index}: {e.describe}"

def invalid (policy : DecodePolicy) (index : Nat) (c : Control) (e : DecodeError) : Fault :=
  let criticality := if c.critical then "critical" else "non-critical"
  { fatal := policy.throwInvalid c.critical
    error := e.within s!"Embedded control {index} ({c.oid})"
    note := s!"Skipped invalid {criticality} embedded control {index} ({c.oid}): {e.describe}" }

/-- Decodes items in order. The second component is `notes` with a note for each item that
was skipped. -/
def decodeItems {ι : Type} (decode : Nat → ι → Except Fault T) (index : Nat)
    (notes : List String) : List ι → Except DecodeError (List T) × List String
  | [] => (.ok [], notes)
  | item :: items =>
    match decode index item with
    | .ok x =>
      let (r, notes) := decodeItems decode (index + 1) notes items
      (r.map (x :: ·), notes)
    | .error fault =>
      if fault.fatal then (.error fault.error, notes)
      else decodeItems decode (index + 1) (notes ++ [fault.note]) items

def ofElement (r : Registry Control T) (policy : DecodePolicy) (index : Nat) (e : Element) :
    Except Fault T :=
  match Control.ofElement e with
  | .error err => .error (unparsable policy index err)
  | .ok c => (r.decode c).mapError (invalid policy index c)

def ofValue (r : Registry Control T) (policy : DecodePolicy) (index : Nat) (v : Value) :
    Except Fault T :=
  match Document.parse (E := Control) policy.strict v with
  | .error err => .error (unparsable policy index err)
  | .ok parsed =>
    (r.ofParsed policy.strict parsed).mapError (invalid policy index parsed.envelope)

def decode (r : Registry Control T) (policy : DecodePolicy) (notes : List String)
    (list : Element) : Except DecodeError (List T) × List String :=
  match within "Embedded controls" list.asChildren with
  | .error e => (.error e, notes)
  | .ok items => decodeItems (ofElement r policy) 0 notes items

def decodeDocuments (r : Registry Control T) (policy : DecodePolicy) (notes : List String)
    (items : List Value) : Except DecodeError (List T) × List String :=
  decodeItems (ofValue r policy) 0 notes items

end Embedded

end LdapCodec
