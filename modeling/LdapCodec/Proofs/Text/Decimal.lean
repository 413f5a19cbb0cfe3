import Mathlib.Algebra.Group.Nat.Defs
import Mathlib.Data.List.Induction
import LdapCodec.Text.Decimal

namespace LdapCodec.Decimal

theorem digits_ne_nil (n : Nat) : digits n ≠ [] := by
  rw [digits]
  split <;> simp

theorem isDigit_of_mem_digits {n : Nat} : ∀ c ∈ digits n, isDigit c = true := by
  induction n using Nat.strongRecOn with
  | ind n ih =>
    rw [digits]
    split
    · simpa using isDigit_digit n (by assumption)
    · intro c hc
      rcases List.mem_append.1 hc with hc | hc
      · exact ih (n / 10) (by omega) c hc
      · rw [List.mem_singleton.1 hc]
        exact isDigit_digit _ (by omega)

/-- The digits of a number other than zero do not begin with zero. -/
theorem digits_eq_cons {n : Nat} (h : 0 < n) : ∃ c cs, digits n = c :: cs ∧ c ≠ '0' := by
  have hd : ∀ k < 10, 0 < k → digit k ≠ '0' := by decide
  induction n using Nat.strongRecOn with
  | ind n ih =>
    rw [digits]
    split
    · exact ⟨_, [], rfl, hd n (by assumption) h⟩
    · obtain ⟨c, cs, hc, h0⟩ := ih (n / 10) (by omega) (by omega)
      exact ⟨c, _, by rw [hc, List.cons_append], h0⟩

theorem isNumber_digits (n : Nat) : isNumber (digits n) = true := by
  by_cases h : n = 0
  · rw [h, digits]
    rfl
  · obtain ⟨c, cs, hc, h0⟩ := digits_eq_cons (Nat.pos_of_ne_zero h)
    have hall := isDigit_of_mem_digits (n := n)
    rw [hc, List.forall_mem_cons] at hall
    rw [hc]
    cases cs with
    | nil => exact hall.1
    | cons d ds => simp [isNumber, hall.1, h0, List.all_eq_true.2 hall.2]

theorem toNat_of_isDigit {c : Char} (h : isDigit c = true) : 48 ≤ c.toNat ∧ c.toNat ≤ 57 := by
  simp only [isDigit, Bool.and_eq_true, decide_eq_true_eq, Char.le_def, UInt32.le_iff_toNat_le] at h
  exact h

theorem digit_of_isDigit {c : Char} (h : isDigit c = true) : digit (c.toNat - 48) = c := by
  obtain ⟨hl, -⟩ := toNat_of_isDigit h
  rw [digit, Nat.add_sub_cancel' hl, Char.ofNat_toNat]

theorem value_concat (cs : List Char) (c : Char) :
    value (cs ++ [c]) = value cs * 10 + (c.toNat - 48) := by
  simp [value, List.foldl_append]

theorem isNumber_iff {cs : List Char} :
    isNumber cs = true ↔
      cs ≠ [] ∧ (∀ c ∈ cs, isDigit c = true) ∧ (cs.head? = some '0' → cs = ['0']) := by
  cases cs with
  | nil => simp [isNumber]
  | cons c cs =>
    cases cs with
    | nil => simp [isNumber]
    | cons d cs => simp [isNumber, and_assoc, and_comm]

/-- Digits that do not begin with zero are those of the number that they are read as. -/
theorem digits_value_of_ne_zero {c : Char} (hc : c ≠ '0') {cs : List Char}
    (h : ∀ d ∈ c :: cs, isDigit d = true) :
    0 < value (c :: cs) ∧ digits (value (c :: cs)) = c :: cs := by
  induction cs using List.reverseRecOn with
  | nil =>
    have hd := h c List.mem_cons_self
    obtain ⟨hl, hu⟩ := toNat_of_isDigit hd
    have hv : value [c] = c.toNat - 48 := by simp [value]
    have h0 : c.toNat ≠ 48 := fun he ↦ hc (Char.toNat_inj.1 he)
    rw [hv, digits, if_pos (by omega), digit_of_isDigit hd]
    exact ⟨by omega, rfl⟩
  | append_singleton cs d ih =>
    rw [← List.cons_append] at h ⊢
    have hd := h d (by simp)
    obtain ⟨hl, hu⟩ := toNat_of_isDigit hd
    obtain ⟨hpos, hdigits⟩ := ih fun e he ↦ h e (List.mem_append_left _ he)
    have hdiv : (value (c :: cs) * 10 + (d.toNat - 48)) / 10 = value (c :: cs) := by omega
    have hmod : (value (c :: cs) * 10 + (d.toNat - 48)) % 10 = d.toNat - 48 := by omega
    rw [value_concat, digits, if_neg (by omega), hdiv, hmod, hdigits, digit_of_isDigit hd]
    exact ⟨by omega, rfl⟩

theorem digits_value {cs : List Char} (h : isNumber cs = true) : digits (value cs) = cs := by
  obtain ⟨hn, hd, h0⟩ := isNumber_iff.1 h
  cases cs with
  | nil => exact absurd rfl hn
  | cons c cs =>
    by_cases hc : c = '0'
    · rw [h0 (congrArg some hc)]
      decide +kernel
    · exact (digits_value_of_ne_zero hc hd).2

end LdapCodec.Decimal
