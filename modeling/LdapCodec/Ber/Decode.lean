import LdapCodec.Ber.Element

namespace LdapCodec.Ber

/-- An element whose content has not been looked into. -/
structure Tlv where
  tag : Tag
  content : Bytes
  deriving DecidableEq, Repr

def Tlv.read (bytes : Bytes) : Except DecodeError (Tlv × Bytes) := do
  let (tag, rest) ← Tag.read bytes
  let (length, rest) ← Length.read rest
  let n := length.value
  if n ≤ rest.length then .ok (⟨tag, rest.take n⟩, rest.drop n)
  else .error (.malformedLength s!"Declared length {n} exceeds remaining {rest.length} bytes")

/-- Reads until no octets are left. The number of steps bounds the number of elements. -/
def readMany {α : Type} (read : Bytes → Except DecodeError (α × Bytes)) :
    Nat → Bytes → Except DecodeError (List α)
  | _, [] => .ok []
  | 0, _ => .error (.decoding "Elements do not end")
  | steps + 1, bytes => do
    let (x, rest) ← read bytes
    let xs ← readMany read steps rest
    .ok (x :: xs)

namespace Element

def maxDepth : Nat := 64

def readWithin (levels : Nat) (bytes : Bytes) : Except DecodeError (Element × Bytes) := do
  let (t, rest) ← Tlv.read bytes
  if t.tag.constructed then
    match levels with
    | 0 => .error (.decoding s!"Elements nested deeper than {maxDepth} levels")
    | levels + 1 =>
      let children ← readMany (readWithin levels) t.content.length t.content
      .ok (ofChildren t.tag children, rest)
  else .ok (ofContent t.tag t.content, rest)

def read (bytes : Bytes) : Except DecodeError (Element × Bytes) := readWithin maxDepth bytes

def readAll (bytes : Bytes) : Except DecodeError (List Element) :=
  readMany read bytes.length bytes

def decode (bytes : Bytes) : Except DecodeError Element := do
  let (e, rest) ← read bytes
  if rest = [] then .ok e
  else .error (.decoding s!"{rest.length} trailing bytes after element")

end Element

structure Cursor where
  buffer : Bytes
  position : Nat
  deriving DecidableEq, Repr

namespace Cursor

def ofBytes (bytes : Bytes) : Cursor := ⟨bytes, 0⟩

def unread (c : Cursor) : Bytes := c.buffer.drop c.position

def remaining (c : Cursor) : Nat := c.buffer.length - c.position

def hasRemaining (c : Cursor) : Bool := c.position < c.buffer.length

def advance (c : Cursor) (n : Nat) : Cursor := { c with position := c.position + n }

/-- A step that reads at a cursor. The cursor may have moved before a failure. -/
abbrev Step (α : Type) := Cursor → Except DecodeError α × Cursor

def Step.bind {α β : Type} (step : Step α) (f : α → Step β) : Step β := fun c ↦
  match step c with
  | (.ok x, c) => f x c
  | (.error e, c) => (.error e, c)

def front {α : Type} (read : Bytes → Except DecodeError (α × Bytes)) : Step α := fun c ↦
  match read c.unread with
  | .ok (x, rest) => (.ok x, c.advance (c.remaining - rest.length))
  | .error e => (.error e, c)

def octets (n : Nat) : Step Bytes := fun c ↦
  if n > c.remaining then
    (.error (.malformedLength s!"Declared length {n} exceeds remaining {c.remaining} bytes"), c)
  else (.ok (c.unread.take n), c.advance n)

/-- An identifier, a length and the content they announce. A failure leaves the cursor behind
the parts that were good. -/
def parts : Step Tlv :=
  (front Tag.read).bind fun tag ↦ (front Length.read).bind fun length ↦
    (octets length.value).bind fun content c ↦ (.ok ⟨tag, content⟩, c)

/-- The next element unopened, and how many octets it takes. After a failure the cursor is back
at its position. -/
def tlv (c : Cursor) : Except DecodeError (Tlv × Nat) × Cursor :=
  match parts c with
  | (.ok t, after) => (.ok (t, after.position - c.position), after)
  | (.error e, after) => (.error e, { after with position := c.position })

def elements (element : Step Element) : Nat → Step (List Element)
  | 0, c => if c.hasRemaining then (.error (.decoding "Elements do not end"), c) else (.ok [], c)
  | steps + 1, c =>
    if c.hasRemaining then
      (element.bind fun e ↦ (elements element steps).bind fun es c ↦ (.ok (e :: es), c)) c
    else (.ok [], c)

def elementWithin (levels : Nat) (c : Cursor) : Except DecodeError Element × Cursor :=
  match c.tlv with
  | (.error e, after) => (.error e, after)
  | (.ok (t, _), after) =>
    if t.tag.constructed then
      match levels with
      | 0 =>
        (.error (.decoding s!"Elements nested deeper than {Element.maxDepth} levels"),
          { after with position := c.position })
      | levels + 1 =>
        match elements (elementWithin levels) t.content.length (ofBytes t.content) with
        | (.ok children, _) => (.ok (.ofChildren t.tag children), after)
        | (.error e, _) => (.error e, { after with position := c.position })
    else (.ok (.ofContent t.tag t.content), after)

def element (c : Cursor) : Except DecodeError Element × Cursor := c.elementWithin Element.maxDepth

def skip (c : Cursor) : Except DecodeError Nat × Cursor :=
  Step.bind tlv (fun (_, n) c ↦ (.ok n, c)) c

/-- Every element up to the end. A failure leaves the cursor where it happened. -/
def all (c : Cursor) : Except DecodeError (List Element) × Cursor :=
  elements element c.remaining c

end Cursor

end LdapCodec.Ber
