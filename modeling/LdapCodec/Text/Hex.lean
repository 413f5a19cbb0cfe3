import LdapCodec.Bytes

namespace LdapCodec.Hex

def upperDigit (n : Nat) : Char :=
  if n < 10 then Char.ofNat (48 + n) else Char.ofNat (55 + n)

def lowerDigit (n : Nat) : Char :=
  if n < 10 then Char.ofNat (48 + n) else Char.ofNat (87 + n)

def octet (b : UInt8) : String :=
  String.ofList [upperDigit (b.toNat / 16), upperDigit (b.toNat % 16)]

def digits (n : Nat) : List Char :=
  (Nat.toDigits 16 n)

def digit? (c : Char) : Option Nat :=
  if '0' ≤ c ∧ c ≤ '9' then some (c.toNat - 48)
  else if 'a' ≤ c ∧ c ≤ 'f' then some (c.toNat - 87)
  else if 'A' ≤ c ∧ c ≤ 'F' then some (c.toNat - 55)
  else none

def encode (bytes : Bytes) : String :=
  String.ofList (bytes.flatMap fun b ↦ [lowerDigit (b.toNat / 16), lowerDigit (b.toNat % 16)])

def octets? : List Char → Option Bytes
  | [] => some []
  | a :: b :: rest => do
    let a ← digit? a
    let b ← digit? b
    let bytes ← octets? rest
    some (UInt8.ofNat (a * 16 + b) :: bytes)
  | _ => none

def decode? (text : String) : Option Bytes := octets? text.toList

theorem digit?_lowerDigit : ∀ n < 16, digit? (lowerDigit n) = some n := by decide

end LdapCodec.Hex
