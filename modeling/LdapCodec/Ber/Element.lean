import LdapCodec.Ber.Integer
import LdapCodec.Ber.Length
import LdapCodec.Ber.Tag
import LdapCodec.Text.Utf8
import LdapCodec.Word

namespace LdapCodec.Ber

/-- A tagged value: plain octets, or other elements in order. The constructed bit of
the tag is not kept, because the shape of the content says it. -/
inductive Element where
  | primitive (cls : TagClass) (number : UInt32) (content : Bytes)
  | constructed (cls : TagClass) (number : UInt32) (children : List Element)
  deriving Repr

def tlv (tag : Tag) (content : Bytes) : Bytes :=
  tag.encode ++ Length.octets content.length ++ content

namespace Element

mutual

def decEq : (a b : Element) → Decidable (a = b)
  | primitive c n x, primitive c' n' x' =>
    if h : c = c' ∧ n = n' ∧ x = x' then isTrue (by rw [h.1, h.2.1, h.2.2])
    else isFalse (by simpa using h)
  | constructed c n x, constructed c' n' x' =>
    match decEqAll x x' with
    | isTrue hx =>
      if h : c = c' ∧ n = n' then isTrue (by rw [h.1, h.2, hx])
      else isFalse (by rintro ⟨rfl, rfl, -⟩; exact h ⟨rfl, rfl⟩)
    | isFalse hx => isFalse (by simp [hx])
  | primitive .., constructed .. => isFalse (by simp)
  | constructed .., primitive .. => isFalse (by simp)

def decEqAll : (a b : List Element) → Decidable (a = b)
  | [], [] => isTrue rfl
  | [], _ :: _ => isFalse (by simp)
  | _ :: _, [] => isFalse (by simp)
  | x :: xs, y :: ys =>
    match decEq x y, decEqAll xs ys with
    | isTrue h, isTrue hs => isTrue (by rw [h, hs])
    | isFalse h, _ => isFalse (by simp [h])
    | _, isFalse hs => isFalse (by simp [hs])

end

instance : DecidableEq Element := decEq

def tag : Element → Tag
  | primitive cls number _ => ⟨cls, false, number⟩
  | constructed cls number _ => ⟨cls, true, number⟩

def ofContent (tag : Tag) (content : Bytes) : Element := primitive tag.cls tag.number content

def ofChildren (tag : Tag) (children : List Element) : Element :=
  constructed tag.cls tag.number children

def boolean (v : Bool) : Element := ofContent .boolean [if v then 0xFF else 0x00]

def integer (v : Int) : Element := ofContent .integer (Integer.octets v)

def enumerated (v : Int) : Element := ofContent .enumerated (Integer.octets v)

def octetString (content : Bytes) : Element := ofContent .octetString content

def text (s : String) : Element := octetString (Utf8.encode s)

def null : Element := ofContent .null []

def sequence (children : List Element) : Element := ofChildren .sequence children

def set (children : List Element) : Element := ofChildren .set children

def retag (cls : TagClass) (number : UInt32) : Element → Element
  | primitive _ _ content => primitive cls number content
  | constructed _ _ children => constructed cls number children

def context (number : UInt32) (e : Element) : Element := e.retag .contextSpecific number

mutual

def encode : Element → Bytes
  | primitive cls number content => tlv ⟨cls, false, number⟩ content
  | constructed cls number children => tlv ⟨cls, true, number⟩ (encodeAll children)

def encodeAll : List Element → Bytes
  | [] => []
  | e :: es => encode e ++ encodeAll es

end

mutual

def depth : Element → Nat
  | primitive .. => 0
  | constructed _ _ children => 1 + depthAll children

def depthAll : List Element → Nat
  | [] => 0
  | e :: es => max (depth e) (depthAll es)

end

def expectTag (expected : Tag) (e : Element) : Except DecodeError Unit :=
  if e.tag = expected then .ok ()
  else .error (.unexpectedTag s!"Expected {expected.describe}, got {e.tag.describe}")

def asOctets : Element → Except DecodeError Bytes
  | primitive _ _ content => .ok content
  | e@(constructed ..) =>
    .error (.unexpectedTag s!"Expected a primitive element, got {e.tag.describe}")

def asChildren : Element → Except DecodeError (List Element)
  | constructed _ _ children => .ok children
  | e@(primitive ..) =>
    .error (.unexpectedTag s!"Expected a constructed element, got {e.tag.describe}")

def asSequence (e : Element) : Except DecodeError (List Element) := do
  e.expectTag .sequence
  e.asChildren

/-- Any octet but zero is true. -/
def asBoolean (e : Element) : Except DecodeError Bool := do
  match ← e.asOctets with
  | [b] => .ok (b != 0)
  | content =>
    .error (.malformedLength
      s!"Boolean must have exactly one content byte, got {content.length}")

def asInteger (e : Element) : Except DecodeError Int := do
  Integer.decode (← e.asOctets)

def asMinimalInteger (e : Element) : Except DecodeError Int := do
  let content ← e.asOctets
  let v ← Integer.decode content
  if (Integer.octets v).length = content.length then .ok v
  else
    .error (.decoding
      s!"Non-minimal integer encoding ({content.length} bytes for value {v})")

def asInt32 (e : Element) : Except DecodeError Int32 := do
  let v ← e.asInteger
  match Word.ofInt? v with
  | some w => .ok w
  | none => .error (.valueOutOfRange s!"Integer {v} does not fit in 32 bits")

def asText (e : Element) : Except DecodeError String := do
  match Utf8.decode (← e.asOctets) with
  | .ok s => .ok s
  | .error fault => .error (.decoding s!"Octet string is not valid UTF-8: {fault.message}")

def asNull (e : Element) : Except DecodeError Unit := do
  let content ← e.asOctets
  if content = [] then .ok ()
  else .error (.malformedLength s!"Null must have empty content, got {content.length} bytes")

end Element

def checkCount (elements : List Element) (min max : Nat) (what : String) :
    Except DecodeError Unit :=
  if min ≤ elements.length ∧ elements.length ≤ max then .ok ()
  else
    let expected := if min = max then s!"{min}" else s!"{min} to {max}"
    .error (.invalidElementCount
      s!"{what} must have {expected} elements, got {elements.length}")

end LdapCodec.Ber
