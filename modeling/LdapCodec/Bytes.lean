namespace LdapCodec

abbrev Bytes := List UInt8

namespace Bytes

/-- The number that octets spell, most significant octet first. -/
def toNat (bytes : Bytes) : Nat := bytes.foldl (fun n b ↦ n * 256 + b.toNat) 0

def ofNat (n : Nat) : Bytes :=
  if n = 0 then [] else ofNat (n / 256) ++ [UInt8.ofNat (n % 256)]

@[simp]
theorem toNat_nil : toNat [] = 0 := rfl

theorem toNat_concat (bytes : Bytes) (b : UInt8) :
    toNat (bytes ++ [b]) = toNat bytes * 256 + b.toNat := by
  simp [toNat, List.foldl_append]

theorem toNat_ofNat (n : Nat) : toNat (ofNat n) = n := by
  induction n using Nat.strongRecOn with
  | ind n ih =>
    rw [ofNat]
    split
    · simp_all
    · rw [toNat_concat, ih (n / 256) (by omega), UInt8.toNat_ofNat']
      omega

theorem length_ofNat_le {n k : Nat} (h : n < Nat.pow 256 k) : (ofNat n).length ≤ k := by
  induction k generalizing n with
  | zero =>
    have hn : n = 0 := by simpa using h
    simp [hn, ofNat]
  | succ k ih =>
    rw [ofNat]
    split
    · simp
    · have hd : n / 256 < Nat.pow 256 k := by
        rw [Nat.div_lt_iff_lt_mul (by omega)]
        simpa [Nat.pow_succ] using h
      simpa using ih hd

theorem ofNat_ne_nil {n : Nat} (h : n ≠ 0) : ofNat n ≠ [] := by
  rw [ofNat, if_neg h]
  simp

end Bytes

end LdapCodec
