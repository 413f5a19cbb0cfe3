import LdapCodec.Bytes
import LdapCodec.DecodeError

namespace LdapCodec.Ber

/-- How many octets the content of an element has, in the form in which it was written. -/
inductive Length where
  | short (octets : Nat)
  | long (octets : Nat)
  deriving DecidableEq, Repr

namespace Length

def ofNat (n : Nat) : Length := if n < 128 then short n else long n

def value : Length → Nat
  | short n => n
  | long n => n

theorem value_ofNat (n : Nat) : (ofNat n).value = n := by
  unfold ofNat
  split <;> rfl

def isShort : Length → Bool
  | short _ => true
  | long _ => false

/-- The first octet of the long form. A count too large for it is written as 126,
which no reader accepts either. -/
def longMark (count : Nat) : UInt8 := UInt8.ofNat (128 + min count 126)

def octets (n : Nat) : Bytes :=
  if n < 128 then [UInt8.ofNat n]
  else longMark (Bytes.ofNat n).length :: Bytes.ofNat n

def encode (length : Length) : Bytes := octets length.value

def maxOctets : Nat := 4

def read : Bytes → Except DecodeError (Length × Bytes)
  | [] => .error (.malformedLength "Empty buffer for length decoding")
  | b :: rest =>
    let count := b.toNat - 128
    if b.toNat < 128 then .ok (short b.toNat, rest)
    else if count = 0 then
      .error (.malformedLength "Indefinite length encoding not supported")
    else if count > maxOctets then
      .error (.malformedLength s!"Length encoding too large: {count} bytes (max {maxOctets})")
    else if rest.length < count then
      let need := count + 1
      let got := rest.length + 1
      .error (.malformedLength
        s!"Buffer too short for long form length: need {need} bytes, got {got}")
    else .ok (long (Bytes.toNat (rest.take count)), rest.drop count)

/-- The shortest form reads back in front of anything. -/
theorem read_octets {n : Nat} (h : n < UInt32.size) (rest : Bytes) :
    read (octets n ++ rest) = .ok (ofNat n, rest) := by
  unfold octets ofNat
  split
  · rename_i hn
    simp [read, Nat.mod_eq_of_lt (show n < 256 by omega), hn]
  · rename_i hn
    have hl : (Bytes.ofNat n).length ≤ 4 := Bytes.length_ofNat_le (by omega)
    have hp : 0 < (Bytes.ofNat n).length :=
      List.length_pos_iff.2 (Bytes.ofNat_ne_nil (by omega))
    have hm : (longMark (Bytes.ofNat n).length).toNat = 128 + (Bytes.ofNat n).length := by
      rw [longMark, UInt8.toNat_ofNat']
      omega
    rw [List.cons_append, read]
    simp only [hm, maxOctets]
    rw [if_neg (by omega), if_neg (by omega), if_neg (by omega),
      if_neg (by simp only [List.length_append]; omega)]
    simp [Bytes.toNat_ofNat]

end Length

end LdapCodec.Ber
