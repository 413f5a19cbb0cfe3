import LdapCodec.Bytes

namespace LdapCodec.Utf8

def encode (text : String) : Bytes := text.toUTF8.data.toList

/-- The first place where octets stop being UTF-8. `length` counts the octets that
rule the text out, and is absent when the text ends inside a character. -/
structure Fault where
  index : Nat
  length : Option Nat
  deriving DecidableEq, Repr

def Fault.message (fault : Fault) : String :=
  match fault.length with
  | some n => s!"invalid utf-8 sequence of {n} bytes from index {fault.index}"
  | none => s!"incomplete utf-8 byte sequence from index {fault.index}"

def isContinuation (b : UInt8) : Bool := 0x80 ≤ b && b ≤ 0xBF

/-- How many continuation octets a first octet calls for, and the range of the first
of them, which excludes overlong forms, surrogates and numbers past U+10FFFF. -/
def lead? (b : UInt8) : Option (Nat × UInt8 × UInt8) :=
  if b ≤ 0x7F then some (0, 0x80, 0xBF)
  else if b < 0xC2 then none
  else if b ≤ 0xDF then some (1, 0x80, 0xBF)
  else if b = 0xE0 then some (2, 0xA0, 0xBF)
  else if b = 0xED then some (2, 0x80, 0x9F)
  else if b ≤ 0xEF then some (2, 0x80, 0xBF)
  else if b = 0xF0 then some (3, 0x90, 0xBF)
  else if b ≤ 0xF3 then some (3, 0x80, 0xBF)
  else if b = 0xF4 then some (3, 0x80, 0x8F)
  else none

def tail (accepted : Nat) : Nat → Bytes → Except (Option Nat) Bytes
  | 0, rest => .ok rest
  | _ + 1, [] => .error none
  | missing + 1, b :: rest =>
    if isContinuation b then tail (accepted + 1) missing rest else .error (some accepted)

def character : Bytes → Except (Option Nat) Bytes
  | [] => .ok []
  | b :: rest =>
    match lead? b with
    | none => .error (some 1)
    | some (0, _, _) => .ok rest
    | some (missing + 1, low, high) =>
      match rest with
      | [] => .error none
      | c :: rest => if low ≤ c && c ≤ high then tail 2 missing rest else .error (some 1)

def fault (bytes : Bytes) : Fault :=
  go bytes.length 0 bytes
where
  go : Nat → Nat → Bytes → Fault
    | 0, index, _ => ⟨index, none⟩
    | steps + 1, index, bytes =>
      match character bytes with
      | .error length => ⟨index, length⟩
      | .ok rest => go steps (index + (bytes.length - rest.length)) rest

def decode (bytes : Bytes) : Except Fault String :=
  match String.fromUTF8? ⟨bytes.toArray⟩ with
  | some text => .ok text
  | none => .error (fault bytes)

theorem decode_encode (text : String) : decode (encode text) = .ok text := by
  have h : (⟨(encode text).toArray⟩ : ByteArray) = text.toByteArray := by
    simp [encode, String.toUTF8]
  rw [decode, h, String.fromUTF8?, dif_pos text.isValidUTF8]
  rfl

theorem encode_of_decode {bytes : Bytes} {text : String} (h : decode bytes = .ok text) :
    encode text = bytes := by
  unfold decode at h
  split at h
  · rename_i t ht
    cases h
    simp only [String.fromUTF8?] at ht
    split at ht
    · cases ht
      simp [encode, String.toUTF8, String.fromUTF8]
    · simp at ht
  · simp at h

end LdapCodec.Utf8
