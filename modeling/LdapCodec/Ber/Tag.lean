import LdapCodec.Bytes
import LdapCodec.DecodeError
import LdapCodec.Text.Hex

namespace LdapCodec.Ber

inductive TagClass where
  | universal
  | application
  | contextSpecific
  | privateUse
  deriving DecidableEq, Repr

namespace TagClass

def code : TagClass → Nat
  | universal => 0
  | application => 1
  | contextSpecific => 2
  | privateUse => 3

def ofOctet (b : UInt8) : TagClass :=
  match b.toNat / 64 with
  | 0 => universal
  | 1 => application
  | 2 => contextSpecific
  | _ => privateUse

def label : TagClass → String
  | universal => "UNIVERSAL"
  | application => "APPLICATION"
  | contextSpecific => "CONTEXT"
  | privateUse => "PRIVATE"

end TagClass

structure Tag where
  cls : TagClass
  constructed : Bool
  number : UInt32
  deriving DecidableEq, Repr

namespace Tag

def universal (constructed : Bool) (number : UInt32) : Tag := ⟨.universal, constructed, number⟩

def application (constructed : Bool) (number : UInt32) : Tag :=
  ⟨.application, constructed, number⟩

def contextSpecific (constructed : Bool) (number : UInt32) : Tag :=
  ⟨.contextSpecific, constructed, number⟩

def boolean : Tag := universal false 1
def integer : Tag := universal false 2
def octetString : Tag := universal false 4
def null : Tag := universal false 5
def enumerated : Tag := universal false 10
def sequence : Tag := universal true 16
def set : Tag := universal true 17

def isConstructed (b : UInt8) : Bool := b.toNat / 32 % 2 = 1

/-- A single identifier octet read as a tag, whatever its low five bits. -/
def ofOctet (b : UInt8) : Tag :=
  ⟨TagClass.ofOctet b, isConstructed b, UInt32.ofNat (b.toNat % 32)⟩

def octet (tag : Tag) (low : Nat) : UInt8 :=
  UInt8.ofNat (tag.cls.code * 64 + (if tag.constructed then 32 else 0) + low)

def highGroups (n : Nat) : Bytes :=
  if n = 0 then [] else highGroups (n / 128) ++ [UInt8.ofNat (128 + n % 128)]

def groups (n : Nat) : Bytes := highGroups (n / 128) ++ [UInt8.ofNat (n % 128)]

def encode (tag : Tag) : Bytes :=
  if tag.number.toNat ≤ 30 then [tag.octet tag.number.toNat]
  else tag.octet 31 :: groups tag.number.toNat

def pushGroup (acc : UInt32) (b : UInt8) : UInt32 := acc <<< 7 ||| (b &&& 0x7F).toUInt32

/-- The groups of a number, `acc` being the value of those already read. A value of which
another group would push out the highest bits is refused. -/
def readGroups (acc : UInt32) : Bytes → Except DecodeError (UInt32 × Bytes)
  | [] => .error (.decoding "Incomplete high-tag-number encoding")
  | b :: rest =>
    if acc > 0x1FFFFFF then .error (.unexpectedTag "Tag number does not fit in 32 bits")
    else if b.toNat < 128 then .ok (pushGroup acc b, rest)
    else readGroups (pushGroup acc b) rest

/-- The tag at the front of octets. Padded groups and small numbers in groups are accepted. -/
def read : Bytes → Except DecodeError (Tag × Bytes)
  | [] => .error (.decoding "Empty buffer for tag decoding")
  | b :: rest =>
    if b.toNat % 32 < 31 then .ok (ofOctet b, rest)
    else
      match readGroups 0 rest with
      | .error e => .error e
      | .ok (n, rest) => .ok (⟨TagClass.ofOctet b, isConstructed b, n⟩, rest)

def describe (tag : Tag) : String :=
  let form := if tag.constructed then "constructed" else "primitive"
  let head := s!"[{tag.cls.label} {tag.number.toNat}] {form}"
  if tag.number.toNat ≤ 30 then
    let low := Hex.octet (tag.octet tag.number.toNat)
    s!"{head} (0x{low})"
  else head

/-- Below 2^25 there is room for seven more bits. -/
theorem toNat_pushGroup {acc : UInt32} (h : acc.toNat < 0x2000000) (b : UInt8) :
    (pushGroup acc b).toNat = acc.toNat * 128 + b.toNat % 128 := by
  have hlow : (b &&& 0x7F).toNat = b.toNat % 128 := by
    rw [UInt8.toNat_and]
    exact Nat.and_two_pow_sub_one_eq_mod b.toNat 7
  have hhigh : (acc <<< 7).toNat = acc.toNat * 128 := by
    have hs : (acc <<< 7).toNat = acc.toNat <<< 7 % 2 ^ 32 := UInt32.toNat_shiftLeft acc 7
    rw [hs, Nat.shiftLeft_eq]
    omega
  have hor := Nat.two_pow_add_eq_or_of_lt (i := 7) (show b.toNat % 128 < 2 ^ 7 by omega) acc.toNat
  rw [pushGroup, UInt32.toNat_or, UInt8.toNat_toUInt32, hlow, hhigh, Nat.mul_comm, ← hor]

theorem readGroups_cons (acc : UInt32) (b : UInt8) (rest : Bytes) :
    readGroups acc (b :: rest) =
      if 0x2000000 ≤ acc.toNat then .error (.unexpectedTag "Tag number does not fit in 32 bits")
      else if b.toNat < 128 then .ok (pushGroup acc b, rest)
      else readGroups (pushGroup acc b) rest := by
  have hacc : acc > 0x1FFFFFF ↔ 0x2000000 ≤ acc.toNat := by
    rw [gt_iff_lt, UInt32.lt_iff_toNat_lt]
    exact Iff.rfl
  simp only [readGroups, hacc]

/-- A number of 32 bits has room for its last group behind the others. -/
theorem readGroups_ofNat {n : Nat} (hn : n < 0x100000000) {b : UInt8}
    (hb : b.toNat % 128 = n % 128) (rest : Bytes) :
    readGroups (UInt32.ofNat (n / 128)) (b :: rest) =
      if b.toNat < 128 then .ok (UInt32.ofNat n, rest) else readGroups (UInt32.ofNat n) rest := by
  have hd : (UInt32.ofNat (n / 128)).toNat = n / 128 := by
    rw [UInt32.toNat_ofNat']
    omega
  have hp : pushGroup (UInt32.ofNat (n / 128)) b = UInt32.ofNat n := by
    rw [← UInt32.toNat_inj, toNat_pushGroup (by omega), hd, UInt32.toNat_ofNat', hb]
    omega
  rw [readGroups_cons, if_neg (by omega), hp]

theorem readGroups_highGroups {n : Nat} (hn : n < 0x100000000) (rest : Bytes) :
    readGroups 0 (highGroups n ++ rest) = readGroups (UInt32.ofNat n) rest := by
  induction n using Nat.strongRecOn generalizing rest with
  | ind n ih =>
    rw [highGroups]
    split
    · simp_all
    · have hb : (UInt8.ofNat (128 + n % 128)).toNat = 128 + n % 128 := by
        rw [UInt8.toNat_ofNat']
        omega
      rw [List.append_assoc, ih (n / 128) (by omega) (by omega), List.singleton_append,
        readGroups_ofNat hn (by omega), if_neg (by omega)]

theorem readGroups_groups (number : UInt32) (rest : Bytes) :
    readGroups 0 (groups number.toNat ++ rest) = .ok (number, rest) := by
  have hn := number.toNat_lt
  have hb : (UInt8.ofNat (number.toNat % 128)).toNat = number.toNat % 128 := by
    rw [UInt8.toNat_ofNat']
    omega
  rw [groups, List.append_assoc, readGroups_highGroups (by omega), List.singleton_append,
    readGroups_ofNat hn (by omega), if_pos (by omega), UInt32.ofNat_toNat]

theorem toNat_octet (tag : Tag) {low : Nat} (h : low < 32) :
    (tag.octet low).toNat = tag.cls.code * 64 + (if tag.constructed then 32 else 0) + low := by
  obtain ⟨cls, constructed, number⟩ := tag
  rw [octet, UInt8.toNat_ofNat']
  cases cls <;> cases constructed <;> simp [TagClass.code] <;> omega

theorem octet_mod (tag : Tag) {low : Nat} (h : low < 32) : (tag.octet low).toNat % 32 = low := by
  rw [toNat_octet tag h]
  cases tag.constructed <;> simp <;> omega

theorem ofOctet_octet (tag : Tag) {low : Nat} (h : low < 32) :
    ofOctet (tag.octet low) = { tag with number := UInt32.ofNat low } := by
  obtain ⟨cls, constructed, number⟩ := tag
  have ho := toNat_octet ⟨cls, constructed, number⟩ h
  have hc : (octet ⟨cls, constructed, number⟩ low).toNat / 64 = cls.code := by
    cases constructed <;> simp only [ho] <;> simp <;> omega
  have hf : (octet ⟨cls, constructed, number⟩ low).toNat / 32 % 2 =
      if constructed then 1 else 0 := by
    cases constructed <;> simp only [ho] <;> simp <;> omega
  have hl := octet_mod ⟨cls, constructed, number⟩ h
  simp only [ofOctet, TagClass.ofOctet, isConstructed, hc, hf, hl]
  cases cls <;> cases constructed <;> rfl

theorem read_low {b : UInt8} (hb : b.toNat % 32 < 31) (rest : Bytes) :
    read (b :: rest) = .ok (ofOctet b, rest) := by rw [read, if_pos hb]

theorem read_high {b : UInt8} (hb : b.toNat % 32 = 31) (rest : Bytes) :
    read (b :: rest) =
      (readGroups 0 rest).map fun p ↦ ({ ofOctet b with number := p.1 }, p.2) := by
  rw [read, if_neg (by omega)]
  cases readGroups 0 rest with
  | error err => rfl
  | ok p => rfl

/-- A tag reads back in front of anything. -/
theorem read_encode (tag : Tag) (rest : Bytes) : read (tag.encode ++ rest) = .ok (tag, rest) := by
  unfold encode
  split
  · rename_i h
    have hl := tag.octet_mod (show tag.number.toNat < 32 by omega)
    rw [List.singleton_append, read_low (by omega), ofOctet_octet tag (by omega),
      UInt32.ofNat_toNat]
  · rw [List.cons_append, read_high (tag.octet_mod (by omega)), readGroups_groups tag.number rest,
      ofOctet_octet tag (by omega)]
    rfl

end Tag

end LdapCodec.Ber
