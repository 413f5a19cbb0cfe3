import LdapCodec.Proofs.Ber.Shortest

namespace LdapCodec.Ber

namespace Tag

def tooLarge : DecodeError := .unexpectedTag "Tag number does not fit in 32 bits"

def incomplete : DecodeError := .decoding "Incomplete high-tag-number encoding"

theorem read_eq_ok_iff {bytes rest : Bytes} {tag : Tag} :
    read bytes = .ok (tag, rest) ↔ ∃ id, bytes = id ++ rest ∧ tag.SpelledBy id := by
  constructor
  · intro h
    obtain ⟨id, hid, rfl⟩ := isIdentifier_of_read h
    rw [read_append hid, map_eq_ok] at h
    obtain ⟨⟨tag', left⟩, hr, hp⟩ := h
    cases hp
    exact ⟨id, rfl, .of_read hid hr⟩
  · rintro ⟨id, rfl, hs⟩
    rw [read_append hs.isIdentifier, hs.read]
    rfl

/-- A number too large is refused wherever its groups end, and whatever follows. -/
theorem read_tooLarge {b : UInt8} (hb : b.toNat % 32 = 31) {gs : Bytes} (hg : IsGroups gs)
    (hv : 2 ^ 32 ≤ groupsValue 0 gs) (rest : Bytes) :
    read (b :: gs ++ rest) = .error tooLarge := by
  rw [List.cons_append, read_high hb, readGroups_append hg, readGroups_eq hg, UInt32.toNat_zero,
    if_neg (Nat.not_lt.2 hv)]
  rfl

/-- Groups that do not end are refused as soon as they spell too much, or else at their end. -/
theorem readGroups_continued {gs : Bytes} (hg : ∀ g ∈ gs, 128 ≤ g.toNat) (acc : UInt32) :
    readGroups acc gs =
      .error (if groupsValue acc.toNat gs < 2 ^ 32 then incomplete else tooLarge) := by
  induction gs generalizing acc with
  | nil =>
    have hv : groupsValue acc.toNat [] = acc.toNat := rfl
    rw [hv, if_pos acc.toNat_lt]
    rfl
  | cons g gs ih =>
    obtain ⟨hb, hgs⟩ := List.forall_mem_cons.1 hg
    have hv : groupsValue acc.toNat (g :: gs) =
        groupsValue (acc.toNat * 128 + g.toNat % 128) gs := rfl
    rw [readGroups_cons, hv, if_neg (Nat.not_lt.2 hb)]
    by_cases ha : 0x2000000 ≤ acc.toNat
    · have hl := le_groupsValue (acc.toNat * 128 + g.toNat % 128) gs
      rw [if_pos ha, if_neg (by omega)]
      rfl
    · rw [if_neg ha, ih hgs, toNat_pushGroup (by omega)]

theorem length_highGroups_le {n k : Nat} (h : n < 128 ^ k) : (highGroups n).length ≤ k := by
  induction k generalizing n with
  | zero =>
    have hn : n = 0 := by simpa using h
    rw [hn, highGroups_zero]
    exact Nat.le_refl 0
  | succ k ih =>
    by_cases hn : n = 0
    · rw [hn, highGroups_zero]
      exact Nat.zero_le _
    · have hd : n / 128 < 128 ^ k := by
        rw [Nat.div_lt_iff_lt_mul (by omega)]
        rwa [Nat.pow_succ] at h
      rw [highGroups_of_ne_zero hn, List.length_append, List.length_singleton]
      exact Nat.succ_le_succ (ih hd)

/-- The numbers of 32 bits have at most five groups. -/
theorem length_encode_le (tag : Tag) : tag.encode.length ≤ 6 := by
  have hn := tag.number.toNat_lt
  have hl : (highGroups (tag.number.toNat / 128)).length ≤ 4 := length_highGroups_le (by omega)
  unfold encode
  split
  · simp
  · rw [groups, List.length_cons, List.length_append, List.length_singleton]
    omega

end Tag

namespace Length

theorem encode_ofNat (n : Nat) : (ofNat n).encode = octets n := by rw [encode, value_ofNat]

theorem read_eq_ok_iff {bytes rest : Bytes} {n : Nat} :
    (∃ length : Length, read bytes = .ok (length, rest) ∧ length.value = n) ↔
      ∃ size, bytes = size ++ rest ∧ IsLength size n := by
  constructor
  · rintro ⟨length, h, rfl⟩
    obtain ⟨size, hs, hb⟩ := isLength_of_read h
    exact ⟨size, hb, hs⟩
  · rintro ⟨size, rfl, hs⟩
    obtain ⟨length, hv, h⟩ := read_append hs rest
    exact ⟨length, h, hv⟩

end Length

theorem IsLength.length_le {size : Bytes} {n : Nat} (h : IsLength size n) : size.length ≤ 5 := by
  cases h with
  | short hb => simp
  | long hm hp hl =>
    rw [List.length_cons]
    exact Nat.succ_le_succ hl

/-- Tags and lengths read back as they were written, whatever follows, up to numbers of 32 bits.
Of any octets a tag or a length is read exactly if they spell it, and none that do are fewer than
those written for it. Larger numbers are refused, however many octets spell them, and so are
groups that do not end. -/
theorem headers_exact :
    ((∀ (tag : Tag) (rest : Bytes),
        Tag.read (tag.encode ++ rest) = .ok (tag, rest) ∧ tag.encode.length ≤ 6) ∧
      (∀ (bytes rest : Bytes) (tag : Tag),
        Tag.read bytes = .ok (tag, rest) ↔ ∃ id, bytes = id ++ rest ∧ tag.SpelledBy id) ∧
      (∀ (tag : Tag) (id : Bytes), tag.SpelledBy id → tag.encode.length ≤ id.length) ∧
      ∀ (b : UInt8) (gs : Bytes), b.toNat % 32 = 31 →
        (IsGroups gs → 2 ^ 32 ≤ Tag.groupsValue 0 gs →
          ∀ rest, Tag.read (b :: gs ++ rest) = .error Tag.tooLarge) ∧
        ((∀ g ∈ gs, 128 ≤ g.toNat) → Tag.read (b :: gs) =
          .error (if Tag.groupsValue 0 gs < 2 ^ 32 then Tag.incomplete else Tag.tooLarge))) ∧
    (∀ n < 2 ^ 32, ∀ rest, (Length.ofNat n).value = n ∧
      Length.read ((Length.ofNat n).encode ++ rest) = .ok (Length.ofNat n, rest)) ∧
    (∀ n, 2 ^ 32 ≤ n → ∀ rest, ∃ message,
      Length.read ((Length.ofNat n).encode ++ rest) = .error (.malformedLength message)) ∧
    (∀ (bytes rest : Bytes) (n : Nat),
      (∃ length : Length, Length.read bytes = .ok (length, rest) ∧ length.value = n) ↔
        ∃ size, bytes = size ++ rest ∧ IsLength size n) ∧
    ∀ (size : Bytes) (n : Nat), IsLength size n →
      n < 2 ^ 32 ∧ (Length.ofNat n).encode.length ≤ size.length ∧ size.length ≤ 5 := by
  refine ⟨⟨fun tag rest ↦ ⟨tag.read_encode rest, tag.length_encode_le⟩,
    fun _ _ _ ↦ Tag.read_eq_ok_iff, fun tag id hid ↦ (tag.encode_shortest id hid).1, ?_⟩,
    ?_, ?_, fun _ _ _ ↦ Length.read_eq_ok_iff, ?_⟩
  · intro b gs hb
    refine ⟨fun hg hv ↦ Tag.read_tooLarge hb hg hv, fun hg ↦ ?_⟩
    rw [Tag.read_high hb, Tag.readGroups_continued hg, UInt32.toNat_zero]
    rfl
  · intro n hn rest
    rw [Length.encode_ofNat]
    exact ⟨Length.value_ofNat n, Length.read_octets hn rest⟩
  · intro n hn rest
    rw [Length.encode_ofNat]
    exact Length.read_octets_of_le hn rest
  · intro size n hs
    rw [Length.encode_ofNat]
    exact ⟨hs.lt, (Length.octets_shortest n size hs).1, hs.length_le⟩

/-- The largest number behind padding, the first one that is too large, groups without an end, and
the lengths on both sides of 2^32. -/
theorem headers_exact_largest :
    let tag : Tag := ⟨.privateUse, true, 0xFFFFFFFF⟩
    let padded : Bytes := [0x80, 0x80, 0x8F, 0xFF, 0xFF, 0xFF, 0x7F]
    let large : Bytes := [0x80, 0x90, 0x80, 0x80, 0x80, 0x00]
    let unended : Bytes := [0x80, 0x90, 0x80, 0x80, 0x80, 0x80]
    (tag.SpelledBy (0xFF :: padded) ∧ Tag.read (0xFF :: padded ++ [5]) = .ok (tag, [5]) ∧
      tag.encode.length ≤ (0xFF :: padded).length) ∧
    (IsGroups large ∧ 2 ^ 32 ≤ Tag.groupsValue 0 large ∧
      Tag.read (0x1F :: large ++ [5]) = .error Tag.tooLarge) ∧
    ((∀ g ∈ unended, 128 ≤ g.toNat) ∧ Tag.read (0x1F :: unended) = .error Tag.tooLarge ∧
      Tag.read [0x1F, 0x81] = .error Tag.incomplete) ∧
    Length.read [0x84, 0xFF, 0xFF, 0xFF, 0xFF, 5] = .ok (Length.ofNat 0xFFFFFFFF, [5]) ∧
    ∃ message, Length.read [0x85, 1, 0, 0, 0, 0, 5] = .error (.malformedLength message) := by
  intro tag padded large unended
  obtain ⟨⟨-, hread, hshortest, hhigh⟩, hlength, htoo, -, -⟩ := headers_exact
  have hpadded : IsGroups padded :=
    .more (by decide) (.more (by decide) (.more (by decide) (.more (by decide)
      (.more (by decide) (.more (by decide) (.last (by decide)))))))
  have hlarge : IsGroups large :=
    .more (by decide) (.more (by decide) (.more (by decide) (.more (by decide)
      (.more (by decide) (.last (by decide))))))
  have hid : tag.SpelledBy (0xFF :: padded) := .high hpadded (by decide)
  have hv : 2 ^ 32 ≤ Tag.groupsValue 0 large := by decide
  have hunended : ∀ g ∈ unended, 128 ≤ g.toNat := by decide +kernel
  have hover : ¬Tag.groupsValue 0 unended < 2 ^ 32 := by decide
  have hshort := (hhigh 0x1F [0x81] (by decide)).2 (by decide +kernel)
  have hlong := (hhigh 0x1F unended (by decide)).2 hunended
  rw [if_pos (by decide)] at hshort
  rw [if_neg hover] at hlong
  have hfits : (Length.ofNat 0xFFFFFFFF).encode = [0x84, 0xFF, 0xFF, 0xFF, 0xFF] := by
    decide +kernel
  have hwide : (Length.ofNat (2 ^ 32)).encode = [0x85, 1, 0, 0, 0, 0] := by decide +kernel
  have hfit := (hlength 0xFFFFFFFF (by decide) [5]).2
  have hmessage := htoo (2 ^ 32) (Nat.le_refl _) [5]
  rw [hfits] at hfit
  rw [hwide] at hmessage
  exact ⟨⟨hid, (hread _ _ _).2 ⟨_, rfl, hid⟩, hshortest tag _ hid⟩,
    ⟨hlarge, hv, (hhigh 0x1F large (by decide)).1 hlarge hv [5]⟩, ⟨hunended, hlong, hshort⟩,
    hfit, hmessage⟩

end LdapCodec.Ber
