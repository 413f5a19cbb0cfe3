import LdapCodec.Ber.Element

namespace LdapCodec.Ber

def expectField (e : Element) (tag : Tag) (what : String) : Except DecodeError Unit :=
  if e.tag = tag then .ok ()
  else
    .error (.invalidElementType s!"{what} must be {tag.describe}, got {e.tag.describe}")

def textField (e : Element) (what : String) : Except DecodeError String := do
  expectField e .octetString what
  within what e.asText

/-- An integer from 0 to 2^31 - 1, as protocol numbers are. -/
def nonNegative (e : Element) (what : String) : Except DecodeError Int32 := do
  let v ← within what e.asInt32
  if v < 0 then
    .error (.valueOutOfRange s!"{what} must not be negative, got {v.toInt}")
  else .ok v

def unexpected (e : Element) (what : String) : DecodeError :=
  .invalidElementType s!"Unexpected element {e.tag.describe} in {what}"

def optionalField {α : Type} (tag : Tag) (read : Element → Except DecodeError α) :
    List Element → Except DecodeError (Option α × List Element)
  | [] => .ok (none, [])
  | e :: es =>
    if e.tag = tag then do
      let x ← read e
      .ok (some x, es)
    else .ok (none, e :: es)

def noMoreFields (what : String) : List Element → Except DecodeError Unit
  | [] => .ok ()
  | e :: _ => .error (unexpected e what)

/-- Takes an element into two fields that may be left out. What was read before tells which
of them it can be: they stand in this order, each at most once. -/
def takeField {α β : Type} (what : String) (first : Tag)
    (readFirst : Element → Except DecodeError α) (last : Tag)
    (readLast : Element → Except DecodeError β) (fields : Option α × Option β) (e : Element) :
    Except DecodeError (Option α × Option β) :=
  if e.tag = first ∧ fields.1.isNone ∧ fields.2.isNone then do
    let a ← readFirst e
    .ok (some a, fields.2)
  else if e.tag = last ∧ fields.2.isNone then do
    let b ← readLast e
    .ok (fields.1, some b)
  else .error (unexpected e what)

def optionalFields {α β : Type} (what : String) (first : Tag)
    (readFirst : Element → Except DecodeError α) (last : Tag)
    (readLast : Element → Except DecodeError β) (es : List Element) :
    Except DecodeError (Option α × Option β) :=
  es.foldlM (takeField what first readFirst last readLast) (none, none)

/-- Fields with a fixed order, each at most once. `read` takes an element into what was
read before and tells the place of its field in that order. -/
def orderedFields {α : Type} (what : String) (read : α → Element → Except DecodeError (Nat × α))
    (next : Nat) (x : α) : List Element → Except DecodeError α
  | [] => .ok x
  | e :: es => do
    let (place, x) ← read x e
    if place < next then
      .error (.invalidElementType
        s!"{what} element {e.tag.describe} is out of order or repeated")
    else orderedFields what read (place + 1) x es

end LdapCodec.Ber
