import LdapCodec.Ber.Decode

namespace LdapCodec.Ber

/-- What a stream will still deliver, one chunk after another. -/
abbrev Source := List Bytes

namespace Source

def next? : Source → Option (UInt8 × Source)
  | [] => none
  | [] :: chunks => next? chunks
  | (b :: bs) :: chunks => some (b, bs :: chunks)

def take? (n : Nat) : Source → Option (Bytes × Source)
  | [] => if n = 0 then some ([], []) else none
  | chunk :: chunks =>
    if n ≤ chunk.length then some (chunk.take n, chunk.drop n :: chunks)
    else (take? (n - chunk.length) chunks).map fun (bytes, rest) ↦ (chunk ++ bytes, rest)

end Source

namespace Stream

/-- A step that reads from a stream. What was read before a failure stays read. -/
abbrev Step (α : Type) := Source → Except Failure α × Source

def octet : Step UInt8 := fun s ↦
  match s.next? with
  | some (b, s) => (.ok b, s)
  | none => (.error .endOfInput, [])

def octets (n : Nat) : Step Bytes := fun s ↦
  match s.take? n with
  | some (bytes, s) => (.ok bytes, s)
  | none => (.error .endOfInput, [])

def Step.bind {α β : Type} (step : Step α) (f : α → Step β) : Step β := fun s ↦
  match step s with
  | (.ok x, s) => f x s
  | (.error e, s) => (.error e, s)

def Step.fail {α : Type} (e : Failure) : Step α := fun s ↦ (.error e, s)

def maxIdentifier : Nat := 6

def defaultMax : Nat := 16 * 1024 * 1024

def groups : Nat → Step Bytes
  | 0 => .fail (.decode (.unexpectedTag "Tag number does not fit in 32 bits"))
  | room + 1 => octet.bind fun b ↦
    if b.toNat < 128 then fun s ↦ (.ok [b], s)
    else (groups room).bind fun bs s ↦ (.ok (b :: bs), s)

def identifier (b : UInt8) : Step Bytes :=
  if b.toNat % 32 = 31 then (groups (maxIdentifier - 1)).bind fun bs s ↦ (.ok (b :: bs), s)
  else fun s ↦ (.ok [b], s)

def length : Step (Bytes × Nat) :=
  octet.bind fun b ↦
    let count := b.toNat - 128
    if b.toNat < 128 then fun s ↦ (.ok ([b], b.toNat), s)
    else if count = 0 ∨ count > Length.maxOctets then
      let form := Hex.octet b
      .fail (.decode (.malformedLength s!"Unsupported length form 0x{form}"))
    else (lengthOctets count).bind fun bs s ↦ (.ok (b :: bs, Bytes.toNat bs), s)
where
  lengthOctets : Nat → Step Bytes
    | 0 => fun s ↦ (.ok [], s)
    | n + 1 => octet.bind fun b ↦ (lengthOctets n).bind fun bs s ↦ (.ok (b :: bs), s)

/-- The next element of a stream, or nothing at its end. Nothing of a content longer
than `max` is read. -/
def read (max : Nat) : Step (Option Element) := fun s ↦
  match s.next? with
  | none => (.ok none, [])
  | some (b, s) =>
    ((identifier b).bind fun tag ↦ length.bind fun (size, n) ↦
      if n > max then .fail (.elementTooLarge n max)
      else (octets n).bind fun content s ↦
        (((Element.decode (tag ++ size ++ content)).mapError .decode).map some, s)) s

end Stream

end LdapCodec.Ber
