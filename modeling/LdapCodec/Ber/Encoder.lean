import LdapCodec.Ber.Element

namespace LdapCodec.Ber

structure Encoder where
  buffer : Bytes
  deriving DecidableEq, Repr

namespace Encoder

def empty : Encoder := ⟨[]⟩

def tlv (w : Encoder) (tag : Tag) (content : Bytes) : Encoder := ⟨w.buffer ++ Ber.tlv tag content⟩

def boolean (w : Encoder) (v : Bool) : Encoder := w.tlv .boolean [if v then 0xFF else 0x00]

def integer (w : Encoder) (v : Int) : Encoder := w.tlv .integer (Integer.octets v)

def enumerated (w : Encoder) (v : Int) : Encoder := w.tlv .enumerated (Integer.octets v)

def octetString (w : Encoder) (content : Bytes) : Encoder := w.tlv .octetString content

def null (w : Encoder) : Encoder := w.tlv .null []

/-- The content is that of elements already encoded. -/
def sequence (w : Encoder) (content : Bytes) : Encoder := w.tlv .sequence content

def context (w : Encoder) (number : UInt32) (content : Bytes) (constructed : Bool) : Encoder :=
  w.tlv (.contextSpecific constructed number) content

def application (w : Encoder) (number : UInt32) (content : Bytes) (constructed : Bool) : Encoder :=
  w.tlv (.application constructed number) content

mutual

/-- The children of a constructed element are written to an encoder of their own. -/
def element (w : Encoder) : Element → Encoder
  | .primitive cls number content => w.tlv ⟨cls, false, number⟩ content
  | .constructed cls number children => w.tlv ⟨cls, true, number⟩ (empty.elements children).buffer

def elements (w : Encoder) : List Element → Encoder
  | [] => w
  | e :: es => (w.element e).elements es

end

end Encoder

end LdapCodec.Ber
