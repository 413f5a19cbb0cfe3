import LdapCodec.Bytes
import LdapCodec.DecodeError

namespace LdapCodec.Ber.Integer

def octets (v : Int) : Bytes :=
  if -128 ≤ v ∧ v < 128 then [UInt8.ofNat (v % 256).toNat]
  else octets (v / 256) ++ [UInt8.ofNat (v % 256).toNat]
termination_by v.natAbs
decreasing_by omega

def value (bytes : Bytes) : Int :=
  let start : Int :=
    match bytes with
    | [] => 0
    | b :: _ => if b.toNat < 128 then 0 else -1
  bytes.foldl (fun v b ↦ v * 256 + b.toNat) start

def significant : Bytes → Bytes
  | a :: b :: rest =>
    if (a = 0x00 ∧ b.toNat < 128) ∨ (a = 0xFF ∧ b.toNat ≥ 128) then significant (b :: rest)
    else a :: b :: rest
  | bytes => bytes

/-- Padded integers are accepted, those that need more than 64 bits are not. -/
def decode (bytes : Bytes) : Except DecodeError Int :=
  if bytes = [] then .error (.decoding "Empty integer encoding")
  else
    let sig := significant bytes
    if sig.length > 8 then
      .error (.valueOutOfRange s!"Integer too large: {sig.length} significant bytes (max 8)")
    else .ok (value sig)

theorem value_concat {bytes : Bytes} (h : bytes ≠ []) (b : UInt8) :
    value (bytes ++ [b]) = value bytes * 256 + b.toNat := by
  cases bytes with
  | nil => exact absurd rfl h
  | cons a rest => simp [value, List.foldl_append]

theorem octets_ne_nil (v : Int) : octets v ≠ [] := by
  rw [octets]
  split <;> simp

/-- The octets of a number spell it. -/
theorem value_octets (v : Int) : value (octets v) = v := by
  have hb : ∀ w : Int, ((UInt8.ofNat (w % 256).toNat).toNat : Int) = w % 256 := by
    intro w
    rw [UInt8.toNat_ofNat']
    omega
  fun_induction octets v with
  | case1 v h =>
    have hv := hb v
    simp only [value, List.foldl_cons, List.foldl_nil]
    split <;> omega
  | case2 v h ih =>
    rw [value_concat (octets_ne_nil _), ih, hb]
    omega

end LdapCodec.Ber.Integer
