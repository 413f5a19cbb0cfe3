namespace LdapCodec.Decimal

def digit (n : Nat) : Char := Char.ofNat (48 + n)

def isDigit (c : Char) : Bool := '0' ≤ c && c ≤ '9'

def digits (n : Nat) : List Char :=
  if n < 10 then [digit n] else digits (n / 10) ++ [digit (n % 10)]

def value (cs : List Char) : Nat := cs.foldl (fun n c ↦ n * 10 + (c.toNat - 48)) 0

def isNumber : List Char → Bool
  | [] => false
  | [c] => isDigit c
  | c :: cs => isDigit c && c != '0' && cs.all isDigit

theorem isDigit_digit : ∀ n < 10, isDigit (digit n) = true := by decide

theorem value_digits (n : Nat) : value (digits n) = n := by
  have h₁ : ∀ n < 10, (digit n).toNat - 48 = n := by decide
  induction n using Nat.strongRecOn with
  | ind n ih =>
    rw [digits]
    split
    · simp [value, h₁ n (by assumption)]
    · have h := ih (n / 10) (by omega)
      rw [value] at h
      rw [value, List.foldl_append, h]
      simp only [List.foldl_cons, List.foldl_nil, h₁ (n % 10) (by omega)]
      omega

end LdapCodec.Decimal
