import LdapCodec.Bytes

namespace LdapCodec.Base64

def symbol (n : Nat) : Char :=
  if n < 26 then Char.ofNat (65 + n)
  else if n < 52 then Char.ofNat (71 + n)
  else if n < 62 then Char.ofNat (n - 4)
  else if n = 62 then '+'
  else '/'

def sextet? (c : Char) : Option Nat :=
  if 'A' ≤ c ∧ c ≤ 'Z' then some (c.toNat - 65)
  else if 'a' ≤ c ∧ c ≤ 'z' then some (c.toNat - 71)
  else if '0' ≤ c ∧ c ≤ '9' then some (c.toNat + 4)
  else if c = '+' then some 62
  else if c = '/' then some 63
  else none

def symbols : Bytes → List Char
  | [] => []
  | [a] => [symbol (a.toNat / 4), symbol (a.toNat % 4 * 16), '=', '=']
  | [a, b] =>
    [symbol (a.toNat / 4), symbol (a.toNat % 4 * 16 + b.toNat / 16), symbol (b.toNat % 16 * 4), '=']
  | a :: b :: c :: rest =>
    symbol (a.toNat / 4) :: symbol (a.toNat % 4 * 16 + b.toNat / 16) ::
      symbol (b.toNat % 16 * 4 + c.toNat / 64) :: symbol (c.toNat % 64) :: symbols rest

def encode (bytes : Bytes) : String := String.ofList (symbols bytes)

/-- Padding stands at the end only, and the bits that it leaves unused are zero. -/
def octets? : List Char → Option Bytes
  | [] => some []
  | [a, b, '=', '='] => do
    let a ← sextet? a
    let b ← sextet? b
    if b % 16 = 0 then some [UInt8.ofNat (a * 4 + b / 16)] else none
  | [a, b, c, '='] => do
    let a ← sextet? a
    let b ← sextet? b
    let c ← sextet? c
    if c % 4 = 0 then
      some [UInt8.ofNat (a * 4 + b / 16), UInt8.ofNat (b % 16 * 16 + c / 4)]
    else none
  | a :: b :: c :: d :: rest => do
    let a ← sextet? a
    let b ← sextet? b
    let c ← sextet? c
    let d ← sextet? d
    let bytes ← octets? rest
    some (UInt8.ofNat (a * 4 + b / 16) :: UInt8.ofNat (b % 16 * 16 + c / 4) ::
      UInt8.ofNat (c % 4 * 64 + d) :: bytes)
  | _ => none

def decode? (text : String) : Option Bytes := octets? text.toList

theorem sextet?_symbol : ∀ n < 64, sextet? (symbol n) = some n := by decide

theorem symbol_ne_pad : ∀ n < 64, symbol n ≠ '=' := by decide

theorem octets?_symbols (bytes : Bytes) : octets? (symbols bytes) = some bytes := by
  have hb : ∀ (b : UInt8) (n : Nat), n = b.toNat → UInt8.ofNat n = b := by
    rintro b n rfl
    simp
  fun_induction symbols bytes with
  | case1 => rfl
  | case2 a =>
    have ha := a.toNat_lt
    rw [octets?, sextet?_symbol _ (by omega), sextet?_symbol _ (by omega)]
    simp only [Option.bind_eq_bind, Option.bind_some]
    rw [if_pos (by omega), hb a _ (by omega)]
  | case3 a b =>
    have ha := a.toNat_lt
    have hb' := b.toNat_lt
    rw [octets?.eq_3, sextet?_symbol _ (by omega), sextet?_symbol _ (by omega),
      sextet?_symbol _ (by omega)]
    · simp only [Option.bind_eq_bind, Option.bind_some]
      rw [if_pos (by omega), hb a _ (by omega), hb b _ (by omega)]
    · exact symbol_ne_pad _ (by omega)
  | case4 a b c rest ih =>
    have ha := a.toNat_lt
    have hb' := b.toNat_lt
    have hc := c.toNat_lt
    rw [octets?.eq_4, sextet?_symbol _ (by omega), sextet?_symbol _ (by omega),
      sextet?_symbol _ (by omega), sextet?_symbol _ (by omega), ih]
    · simp only [Option.bind_eq_bind, Option.bind_some]
      rw [hb a _ (by omega), hb b _ (by omega), hb c _ (by omega)]
    · intro h
      exact absurd h (symbol_ne_pad _ (by omega))
    · intro h
      exact absurd h (symbol_ne_pad _ (by omega))

theorem decode?_encode (bytes : Bytes) : decode? (encode bytes) = some bytes := by
  rw [decode?, encode, String.toList_ofList, octets?_symbols]

end LdapCodec.Base64
