namespace LdapCodec.Word

def ofInt? (v : Int) : Option Int32 :=
  if -0x80000000 ≤ v ∧ v < 0x80000000 then some (Int32.ofInt v) else none

theorem toInt_of_ofInt? {v : Int} {w : Int32} (h : ofInt? v = some w) : w.toInt = v := by
  unfold ofInt? at h
  split at h
  · cases h
    rw [Int32.toInt_ofInt]
    simp only [Int32.size]
    rw [Int.bmod_def]
    split <;> omega
  · simp at h

theorem ofInt?_toInt (w : Int32) : ofInt? w.toInt = some w := by
  have h₁ := Int32.le_toInt w
  have h₂ := Int32.toInt_lt w
  rw [ofInt?, if_pos (by omega)]
  simp

theorem ofInt?_eq_none_iff {v : Int} : ofInt? v = none ↔ v < -0x80000000 ∨ 0x80000000 ≤ v := by
  unfold ofInt?
  split
  · simp; omega
  · simp; omega

end LdapCodec.Word
