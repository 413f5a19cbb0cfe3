import Mathlib.Algebra.Group.Int.Defs
import Mathlib.Algebra.Group.Nat.Defs
import Mathlib.Data.List.Induction
import LdapCodec.Ber.Integer
import LdapCodec.Proofs.Outcome

namespace LdapCodec.Ber.Integer

theorem octets_of_small {v : Int} (h : -128 ≤ v ∧ v < 128) :
    octets v = [UInt8.ofNat (v % 256).toNat] := by
  rw [octets, if_pos h]

theorem octets_of_large {v : Int} (h : ¬(-128 ≤ v ∧ v < 128)) :
    octets v = octets (v / 256) ++ [UInt8.ofNat (v % 256).toNat] := by
  rw [octets, if_neg h]

theorem length_octets_le {v : Int} {k : Nat} (hl : -(128 * 256 ^ k) ≤ v) (hu : v < 128 * 256 ^ k) :
    (octets v).length ≤ k + 1 := by
  induction k generalizing v with
  | zero =>
    rw [octets_of_small (by omega)]
    simp
  | succ k ih =>
    by_cases h : -128 ≤ v ∧ v < 128
    · rw [octets_of_small h]
      simp
    · rw [octets_of_large h, List.length_append, List.length_singleton]
      rw [Int.pow_succ] at hl hu
      have hd : (octets (v / 256)).length ≤ k + 1 := ih (by omega) (by omega)
      omega

def Repeats (a b : UInt8) : Prop := (a = 0x00 ∧ b.toNat < 128) ∨ (a = 0xFF ∧ b.toNat ≥ 128)

/-- Two octets or more are written only if the first is needed. -/
theorem octets_eq_cons_cons {v : Int} (h : ¬(-128 ≤ v ∧ v < 128)) :
    ∃ a b rest, octets v = a :: b :: rest ∧ ¬Repeats a b := by
  have hb : ∀ w : Int, ((UInt8.ofNat (w % 256).toNat).toNat : Int) = w % 256 := by
    intro w
    rw [UInt8.toNat_ofNat']
    omega
  fun_induction octets v with
  | case1 v hs => exact absurd hs h
  | case2 v _ ih =>
    by_cases hs : -128 ≤ v / 256 ∧ v / 256 < 128
    · rw [octets_of_small hs]
      refine ⟨_, _, [], rfl, ?_⟩
      have ha := hb (v / 256)
      have hv := hb v
      rintro (⟨h0, hn⟩ | ⟨hf, hn⟩)
      · rw [h0] at ha
        simp only [UInt8.toNat_zero] at ha
        omega
      · rw [hf] at ha
        simp only [UInt8.reduceToNat] at ha
        omega
    · obtain ⟨a, b, rest, ho, hr⟩ := ih hs
      exact ⟨a, b, rest ++ [UInt8.ofNat (v % 256).toNat], by rw [ho]; rfl, hr⟩

theorem significant_octets (v : Int) : significant (octets v) = octets v := by
  by_cases h : -128 ≤ v ∧ v < 128
  · rw [octets_of_small h]
    rfl
  · obtain ⟨a, b, rest, ho, hr⟩ := octets_eq_cons_cons h
    rw [ho, significant]
    exact if_neg hr

/-- Numbers of 64 bits are read as they were written. -/
theorem decode_octets {v : Int} (hl : -(2 ^ 63) ≤ v) (hu : v < 2 ^ 63) :
    decode (octets v) = .ok v := by
  have hlen : (octets v).length ≤ 8 := length_octets_le (k := 7) (by omega) (by omega)
  rw [decode, if_neg (octets_ne_nil v)]
  simp only [significant_octets, value_octets]
  rw [if_neg (by omega)]

theorem significant_ne_nil {bytes : Bytes} (h : bytes ≠ []) : significant bytes ≠ [] := by
  fun_induction significant bytes with
  | case1 a b rest hs ih => exact ih (by simp)
  | case2 a b rest hs => exact h
  | case3 bytes hs => exact h

theorem value_repeats (a b : UInt8) (rest : Bytes) (h : Repeats a b) :
    value (a :: b :: rest) = value (b :: rest) := by
  obtain ⟨rfl, hb⟩ | ⟨rfl, hb⟩ := h
  · simp [value, hb]
  · simp [value, Nat.not_lt.2 hb]

theorem value_significant (bytes : Bytes) : value (significant bytes) = value bytes := by
  fun_induction significant bytes with
  | case1 a b rest h ih => rw [ih, value_repeats a b rest h]
  | case2 a b rest h => rfl
  | case3 bytes h => rfl

/-- What does not change with an octet that repeats the sign does not change with many. -/
theorem replicate_repeats {β : Type} {f : Bytes → β}
    (hf : ∀ a b rest, Repeats a b → f (a :: b :: rest) = f (b :: rest))
    {fill head : UInt8} (h : Repeats fill head) (rest : Bytes) (n : Nat) :
    f (List.replicate n fill ++ head :: rest) = f (head :: rest) := by
  have hfill : Repeats fill fill := by
    obtain ⟨rfl, _⟩ | ⟨rfl, _⟩ := h
    · exact .inl ⟨rfl, by decide⟩
    · exact .inr ⟨rfl, by decide⟩
  induction n with
  | zero => rfl
  | succ n ih =>
    rw [List.replicate_succ, List.cons_append, ← ih]
    cases n with
    | zero => exact hf _ _ _ h
    | succ n => exact hf _ _ _ hfill

theorem significant_repeats (a b : UInt8) (rest : Bytes) (h : Repeats a b) :
    significant (a :: b :: rest) = significant (b :: rest) := by
  rw [significant]
  exact if_pos h

theorem value_singleton (b : UInt8) :
    value [b] = if b.toNat < 128 then (b.toNat : Int) else b.toNat - 256 := by
  simp only [value, List.foldl_cons, List.foldl_nil]
  split <;> omega

/-- Octets spell numbers of as many octets. -/
theorem value_bounds (bytes : Bytes) (b : UInt8) :
    -(128 * 256 ^ bytes.length) ≤ value (bytes ++ [b]) ∧
      value (bytes ++ [b]) < 128 * 256 ^ bytes.length := by
  induction bytes using List.reverseRecOn generalizing b with
  | nil =>
    have hb := b.toNat_lt
    rw [List.nil_append, value_singleton]
    simp only [List.length_nil, Int.pow_zero]
    split <;> omega
  | append_singleton bytes c ih =>
    obtain ⟨hl, hu⟩ := ih c
    have hb := b.toNat_lt
    rw [value_concat (by simp), List.length_append, List.length_singleton, Int.pow_succ]
    omega

/-- A first octet that is needed puts the number out of reach of the other octets. -/
theorem value_of_not_repeats {a b : UInt8} (h : ¬Repeats a b) (rest : Bytes) :
    value (a :: b :: rest) < -(128 * 256 ^ rest.length) ∨
      128 * 256 ^ rest.length ≤ value (a :: b :: rest) := by
  induction rest using List.reverseRecOn with
  | nil =>
    have ha := a.toNat_lt
    have hb := b.toNat_lt
    have hz : a = 0x00 ↔ a.toNat = 0 := by rw [← UInt8.toNat_inj]; rfl
    have hf : a = 0xFF ↔ a.toNat = 255 := by rw [← UInt8.toNat_inj]; rfl
    rw [Repeats, hz, hf] at h
    have hv : value [a, b] = value [a] * 256 + b.toNat :=
      value_concat (List.cons_ne_nil a []) b
    rw [hv, value_singleton]
    simp only [List.length_nil, Int.pow_zero]
    split <;> omega
  | append_singleton rest c ih =>
    have hc := c.toNat_lt
    have hv : value (a :: b :: (rest ++ [c])) = value (a :: b :: rest) * 256 + c.toNat :=
      value_concat (List.cons_ne_nil a (b :: rest)) c
    rw [hv, List.length_append, List.length_singleton, Int.pow_succ]
    omega

theorem not_repeats_of_significant {bytes rest : Bytes} {a b : UInt8}
    (h : significant bytes = a :: b :: rest) : ¬Repeats a b := by
  fun_induction significant bytes with
  | case1 _ _ _ _ ih => exact ih h
  | case2 c d tail hr =>
    cases h
    exact hr
  | case3 bytes hs => exact absurd h (hs a b rest)

theorem pow_le_pow_of_le {k n : Nat} (h : k ≤ n) : (256 : Int) ^ k ≤ 256 ^ n := by
  have hp := Int.ofNat_le.2 (Nat.pow_le_pow_right (show 0 < 256 by decide) h)
  rwa [Int.natCast_pow, Int.natCast_pow] at hp

/-- Octets are read as the number that they spell, if it has 64 bits, however it is padded. -/
theorem decode_eq_ok_iff {bytes : Bytes} {v : Int} :
    decode bytes = .ok v ↔ bytes ≠ [] ∧ value bytes = v ∧ -(2 ^ 63) ≤ v ∧ v < 2 ^ 63 := by
  unfold decode
  by_cases hn : bytes = []
  · simp [hn]
  · rw [if_neg hn]
    dsimp only
    rw [ite_error_eq_ok_iff, value_significant]
    have hs := significant_ne_nil hn
    constructor
    · rintro ⟨hlen, rfl⟩
      have hv := value_bounds (significant bytes).dropLast ((significant bytes).getLast hs)
      rw [List.dropLast_concat_getLast hs, value_significant, List.length_dropLast] at hv
      have hp : (256 : Int) ^ ((significant bytes).length - 1) ≤ 256 ^ 7 :=
        pow_le_pow_of_le (by omega)
      exact ⟨hn, rfl, by omega, by omega⟩
    · rintro ⟨-, rfl, hl, hu⟩
      refine ⟨fun hlen ↦ ?_, rfl⟩
      obtain ⟨a, b, rest, hab⟩ : ∃ a b rest, significant bytes = a :: b :: rest := by
        match hsig : significant bytes with
        | [] | [_] => simp [hsig] at hlen
        | a :: b :: rest => exact ⟨a, b, rest, rfl⟩
      have hv := value_of_not_repeats (not_repeats_of_significant hab) rest
      rw [← hab, value_significant] at hv
      rw [hab, List.length_cons, List.length_cons] at hlen
      have hp : (256 : Int) ^ 7 ≤ 256 ^ rest.length := pow_le_pow_of_le (by omega)
      omega

end LdapCodec.Ber.Integer
