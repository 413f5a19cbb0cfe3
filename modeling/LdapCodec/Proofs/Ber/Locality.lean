import LdapCodec.Proofs.Ber.Grammar

namespace LdapCodec.Ber

theorem IsLength.length_pos {size : Bytes} {n : Nat} (h : IsLength size n) : 0 < size.length := by
  cases h with
  | short hb => simp
  | long hm hp hl => simp

/-- The shortest elements are an identifier and a length of one octet each. -/
theorem Spells.two_le_length {part : Bytes} {e : Element} (h : Spells part e) :
    2 ≤ part.length := by
  cases h with
  | primitive hid hs =>
    have hi := hid.length_pos
    have hz := hs.length_pos
    simp only [List.length_append]
    omega
  | constructed hid hs hp =>
    have hi := hid.length_pos
    have hz := hs.length_pos
    simp only [List.length_append]
    omega

def Tlv.SpelledBy (t : Tlv) (part : Bytes) : Prop :=
  ∃ id size, t.tag.SpelledBy id ∧ IsLength size t.content.length ∧ part = id ++ size ++ t.content

theorem Tlv.SpelledBy.two_le_length {t : Tlv} {part : Bytes} (h : t.SpelledBy part) :
    2 ≤ part.length := by
  obtain ⟨id, size, hid, hsize, rfl⟩ := h
  have hi := hid.length_pos
  have hs := hsize.length_pos
  simp only [List.length_append]
  omega

/-- The octets of an element do not begin with those of another one. -/
theorem Spells.eq_nil_of_append {part more : Bytes} {e e' : Element} (h : Spells part e)
    (h' : Spells (part ++ more) e') : more = [] := by
  obtain ⟨_, _, hm⟩ := h.unique h' (List.append_nil (part ++ more)).symm
  exact hm

namespace Element

theorem read_take_ne_ok {part : Bytes} {e : Element} (h : Spells part e) {k : Nat}
    (hk : k < part.length) (p : Element × Bytes) : read (part.take k) ≠ .ok p := by
  intro hr
  obtain ⟨front, hf, _, hs⟩ := read_eq_ok_iff.1 hr
  -- What is read of the cut begins the octets of the element, and is spelled itself.
  have hsplit : part = front ++ (p.2 ++ part.drop k) := by
    rw [← List.append_assoc, ← hf, List.take_append_drop]
  rw [hsplit] at h
  have hm := hs.eq_nil_of_append h
  have hdrop : part.drop k = [] := (List.append_eq_nil_iff.1 hm).2
  have hl := List.drop_eq_nil_iff.1 hdrop
  omega

/-- To read an element depends on its own octets and on all of them: whatever follows them, the
same is read, and if any of them are missing at the end nothing is. -/
theorem read_local {data rest : Bytes} {e : Element} (h : read data = .ok (e, rest)) :
    let n := data.length - rest.length
    rest = data.drop n ∧ 2 ≤ n ∧ n ≤ data.length ∧
      (∀ more, read (data.take n ++ more) = .ok (e, more)) ∧
      ∀ k < n, ∃ err, read (data.take k) = .error err := by
  intro n
  obtain ⟨part, rfl, hd, hs⟩ := read_eq_ok_iff.1 h
  have hn : n = part.length := by simp [n]
  have htake : (part ++ rest).take n = part := by rw [hn, List.take_left]
  refine ⟨?_, ?_, ?_, ?_, ?_⟩
  · rw [hn, List.drop_left]
  · rw [hn]
    exact hs.two_le_length
  · exact Nat.sub_le _ _
  · intro more
    rw [htake]
    exact read_eq_ok_iff.2 ⟨part, rfl, hd, hs⟩
  · intro k hk
    have hcut : (part ++ rest).take k = part.take k :=
      List.take_append_of_le_length (by omega)
    rw [hcut]
    cases hr : read (part.take k) with
    | error err => exact ⟨err, rfl⟩
    | ok p => exact absurd hr (read_take_ne_ok hs (hn ▸ hk) p)

/-- A sequence with a padded length around a text, and another element behind it. -/
theorem read_local_followed :
    read [0x30, 0x81, 3, 4, 1, 0x61, 5, 0] = .ok (sequence [octetString [0x61]], [5, 0]) ∧
      (∀ more, read ([0x30, 0x81, 3, 4, 1, 0x61] ++ more) =
        .ok (sequence [octetString [0x61]], more)) ∧
      ∀ k < 6, ∃ err, read ([0x30, 0x81, 3, 4, 1, 0x61, 5, 0].take k) = .error err := by
  have hr : read [0x30, 0x81, 3, 4, 1, 0x61, 5, 0] =
      .ok (sequence [octetString [0x61]], [5, 0]) := by decide +kernel
  obtain ⟨_, _, _, hmore, hcut⟩ := read_local hr
  exact ⟨hr, hmore, hcut⟩

end Element

end LdapCodec.Ber
