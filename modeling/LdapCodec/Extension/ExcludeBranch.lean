import LdapCodec.Extension

namespace LdapCodec

open Ber Json

/-- Leaves whole subtrees out of a search. -/
structure ExcludeBranch where
  baseDns : List String
  deriving DecidableEq, Repr

namespace ExcludeBranch

def baseDnsTag : Tag := .contextSpecific true 0

def check (baseDns : List String) : Except DecodeError ExcludeBranch :=
  if baseDns = [] then
    .error (.invalidElementCount "Exclude branch request must name at least one base DN")
  else .ok ⟨baseDns⟩

def encode (x : ExcludeBranch) : Element :=
  .sequence [(Element.sequence (x.baseDns.map Element.text)).context 0]

def decode (fields : List Element) : Except DecodeError ExcludeBranch := do
  match fields with
  | first :: _ =>
    expectField first baseDnsTag "Exclude branch base DNs"
    let baseDns ← (← first.asChildren).mapM (textField · "Exclude branch base DN")
    check baseDns
  | [] => check []

def name : String := "Exclude Branch Request Control"

def structured : Structured ExcludeBranch where
  fields := ["base-dns"]
  write x := some (.object [("base-dns", .ofTexts x.baseDns)])
  read _ ms := do
    check (← orInvalid name (ms.required Value.asTexts? "base-dns"))

def extension : Extension Control Bool ExcludeBranch where
  oid := "1.3.6.1.4.1.30221.2.5.17"
  name := name
  keepsValue := true
  encodeValue x := some (encode x).encode
  decodeValue _ value := do
    decode (← Payload.fields value name 1 1)
  structured := some structured

def build (critical : Bool) (baseDns : List String) :
    Except Refusal (Typed Bool ExcludeBranch) :=
  if baseDns = [] then .error .noBaseDn else .ok (.new critical ⟨baseDns⟩)

def defaultCriticality : Bool := true

end ExcludeBranch

end LdapCodec
