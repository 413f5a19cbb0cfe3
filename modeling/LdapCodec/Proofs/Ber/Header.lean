import Mathlib.Algebra.Group.Nat.Defs
import LdapCodec.Ber.Decode
import LdapCodec.Proofs.Outcome

namespace LdapCodec

theorem Bytes.lt_length_ofNat {n k : Nat} (h : 256 ^ k ≤ n) : k < (Bytes.ofNat n).length := by
  induction k generalizing n with
  | zero => exact List.length_pos_iff.2 (Bytes.ofNat_ne_nil (by omega))
  | succ k ih =>
    have hn : n ≠ 0 := by
      have hp : 0 < 256 ^ (k + 1) := Nat.pow_pos (by omega)
      omega
    have hd : 256 ^ k ≤ n / 256 := by
      rw [Nat.le_div_iff_mul_le (by omega)]
      simpa only [Nat.pow_succ] using h
    rw [Bytes.ofNat, if_neg hn, List.length_append, List.length_singleton]
    have hl := ih hd
    omega

namespace Ber

inductive IsGroups : Bytes → Prop
  | last {b : UInt8} (hb : b.toNat < 128) : IsGroups [b]
  | more {b : UInt8} {gs : Bytes} (hb : 128 ≤ b.toNat) (hg : IsGroups gs) : IsGroups (b :: gs)

theorem IsGroups.continued {gs : Bytes} (hg : IsGroups gs) {k : Nat} (hk : k < gs.length) :
    ∀ g ∈ gs.take k, 128 ≤ g.toNat := by
  induction hg generalizing k with
  | last hb =>
    have h0 : k = 0 := by simpa using hk
    simp [h0]
  | more hb hg ih =>
    cases k with
    | zero => simp
    | succ k => exact List.forall_mem_cons.2 ⟨hb, ih (by simpa using hk)⟩

/-- An octet that holds a number up to 30, or an octet with all low bits set and the groups
of a number. The groups may be padded, and spell any number. -/
inductive IsIdentifier : Bytes → Prop
  | low {b : UInt8} (hb : b.toNat % 32 < 31) : IsIdentifier [b]
  | high {b : UInt8} {gs : Bytes} (hb : b.toNat % 32 = 31) (hg : IsGroups gs) :
      IsIdentifier (b :: gs)

/-- One octet below 128, or a mark and one to four octets, which may be padded. -/
inductive IsLength : Bytes → Nat → Prop
  | short {b : UInt8} (hb : b.toNat < 128) : IsLength [b] b.toNat
  | long {mark : UInt8} {ds : Bytes} (hm : mark.toNat = 128 + ds.length) (hp : ds ≠ [])
      (hl : ds.length ≤ 4) : IsLength (mark :: ds) (Bytes.toNat ds)

theorem IsLength.of_mark {mark : UInt8} {bytes : Bytes} (hm : 128 < mark.toNat)
    (h4 : mark.toNat ≤ 132) (hl : mark.toNat - 128 ≤ bytes.length) :
    IsLength (mark :: bytes.take (mark.toNat - 128))
      (Bytes.toNat (bytes.take (mark.toNat - 128))) := by
  have hd : (bytes.take (mark.toNat - 128)).length = mark.toNat - 128 := by
    rw [List.length_take]
    omega
  refine .long (by omega) ?_ (by omega)
  intro hn
  rw [hn, List.length_nil] at hd
  omega

structure Header where
  identifier : Bytes
  size : Bytes
  length : Nat
  isIdentifier : IsIdentifier identifier
  isLength : IsLength size length

def Header.octets (h : Header) : Bytes := h.identifier ++ h.size

namespace Tag

theorem readGroups_append {gs : Bytes} (hg : IsGroups gs) (acc : UInt32) (rest : Bytes) :
    readGroups acc (gs ++ rest) = (readGroups acc gs).map fun p ↦ (p.1, rest) := by
  induction hg generalizing acc with
  | last hb =>
    simp only [List.cons_append, List.nil_append, readGroups, if_pos hb]
    split
    · rfl
    · rfl
  | more hb hg ih =>
    simp only [List.cons_append, readGroups, if_neg (Nat.not_lt.2 hb), ih]
    split
    · rfl
    · rfl

theorem isGroups_of_readGroups {acc n : UInt32} {bytes rest : Bytes}
    (h : readGroups acc bytes = .ok (n, rest)) : ∃ gs, IsGroups gs ∧ bytes = gs ++ rest := by
  induction bytes generalizing acc with
  | nil => simp [readGroups] at h
  | cons b bytes ih =>
    simp only [readGroups] at h
    split at h
    · simp at h
    · split at h
      · rename_i hb
        cases h
        exact ⟨[b], .last hb, rfl⟩
      · rename_i hb
        obtain ⟨gs, hg, hs⟩ := ih h
        exact ⟨b :: gs, .more (by omega) hg, by rw [hs, List.cons_append]⟩

/-- What follows an identifier does not matter to it. -/
theorem read_append {id : Bytes} (hid : IsIdentifier id) (rest : Bytes) :
    read (id ++ rest) = (read id).map fun p ↦ (p.1, rest) := by
  cases hid with
  | low hb =>
    rw [List.singleton_append, read_low hb, read_low hb]
    rfl
  | @high b gs hb hg =>
    rw [List.cons_append, read_high hb, read_high hb, readGroups_append hg 0 rest]
    cases readGroups 0 gs with
    | error e => rfl
    | ok p => rfl

theorem isIdentifier_of_read {bytes rest : Bytes} {tag : Tag} (h : read bytes = .ok (tag, rest)) :
    ∃ id, IsIdentifier id ∧ bytes = id ++ rest := by
  cases bytes with
  | nil => simp [read] at h
  | cons b bytes =>
    simp only [read] at h
    split at h
    · rename_i hb
      cases h
      exact ⟨[b], .low hb, rfl⟩
    · rename_i hb
      split at h
      · simp at h
      · rename_i n r hr
        cases h
        obtain ⟨gs, hg, hs⟩ := isGroups_of_readGroups hr
        exact ⟨b :: gs, .high (by omega) hg, by rw [hs, List.cons_append]⟩

end Tag

namespace Length

/-- What follows a length does not matter to it. -/
theorem read_append {size : Bytes} {n : Nat} (hn : IsLength size n) (rest : Bytes) :
    ∃ length : Length, length.value = n ∧ read (size ++ rest) = .ok (length, rest) := by
  cases hn with
  | @short b hb =>
    exact ⟨short b.toNat, rfl, by simp only [List.cons_append, List.nil_append, read, if_pos hb]⟩
  | @long mark ds hm hp hl =>
    have hd : 0 < ds.length := List.length_pos_iff.2 hp
    refine ⟨long (Bytes.toNat ds), rfl, ?_⟩
    simp only [List.cons_append, read, hm, maxOctets]
    rw [if_neg (by omega), if_neg (by omega), if_neg (by omega),
      if_neg (by simp only [List.length_append]; omega)]
    simp

theorem isLength_of_read {bytes rest : Bytes} {length : Length}
    (h : read bytes = .ok (length, rest)) :
    ∃ size, IsLength size length.value ∧ bytes = size ++ rest := by
  cases bytes with
  | nil => simp [read] at h
  | cons b bytes =>
    simp only [read, maxOctets] at h
    split at h
    · rename_i hb
      cases h
      exact ⟨[b], .short hb, rfl⟩
    · split at h
      · simp at h
      · split at h
        · simp at h
        · split at h
          · simp at h
          · rename_i hb h0 h4 hlen
            cases h
            simp only [value]
            refine ⟨_, .of_mark (by omega) (by omega) (by omega), ?_⟩
            rw [List.cons_append, List.take_append_drop]

/-- Numbers of more than 32 bits are spelled, but not read. -/
theorem read_octets_of_le {n : Nat} (h : 2 ^ 32 ≤ n) (rest : Bytes) :
    ∃ message, read (octets n ++ rest) = .error (.malformedLength message) := by
  have hl : 4 < (Bytes.ofNat n).length := Bytes.lt_length_ofNat (by omega)
  have hm : 132 < (longMark (Bytes.ofNat n).length).toNat := by
    rw [longMark, UInt8.toNat_ofNat']
    omega
  rw [octets, if_neg (by omega), List.cons_append, read]
  simp only [maxOctets]
  rw [if_neg (by omega), if_neg (by omega), if_pos (by omega)]
  exact ⟨_, rfl⟩

end Length

namespace Tlv

/-- The content ends where the length says, whatever follows. -/
theorem read_header (h : Header) {content : Bytes} (hc : content.length = h.length)
    (rest : Bytes) :
    read (h.octets ++ content ++ rest) =
      (Tag.read h.identifier).map fun p ↦ (⟨p.1, content⟩, rest) := by
  obtain ⟨length, hv, hr⟩ := Length.read_append h.isLength (content ++ rest)
  simp only [read, Header.octets, List.append_assoc, Tag.read_append h.isIdentifier]
  cases Tag.read h.identifier with
  | error e => rfl
  | ok p =>
    simp only [Except.map, bind, Except.bind, hr, hv, ← hc]
    rw [if_pos (by simp only [List.length_append]; omega), List.take_left, List.drop_left]

theorem read_eq_ok {bytes rest : Bytes} {t : Tlv} (h : read bytes = .ok (t, rest)) :
    ∃ head : Header, bytes = head.octets ++ t.content ++ rest ∧ t.content.length = head.length := by
  obtain ⟨⟨tag, body⟩, ht, h₁⟩ := bind_eq_ok.1 h
  obtain ⟨⟨length, body'⟩, hl, h₂⟩ := bind_eq_ok.1 h₁
  obtain ⟨id, hid, hb⟩ := Tag.isIdentifier_of_read ht
  obtain ⟨size, hs, hb'⟩ := Length.isLength_of_read hl
  simp only at h₂
  split at h₂
  · rename_i hle
    cases h₂
    refine ⟨⟨id, size, length.value, hid, hs⟩, ?_, ?_⟩
    · simp only [Header.octets, hb, hb', List.append_assoc, List.take_append_drop]
    · simp only [List.length_take]
      omega
  · simp at h₂

/-- What was written reads back, up to contents of 2^32 octets. -/
theorem read_tlv (tag : Tag) {content : Bytes} (hc : content.length < 2 ^ 32) (rest : Bytes) :
    read (tlv tag content ++ rest) = .ok (⟨tag, content⟩, rest) := by
  simp only [read, tlv, List.append_assoc, Tag.read_encode, Length.read_octets hc, bind,
    Except.bind, Length.value_ofNat]
  rw [if_pos (by simp only [List.length_append]; omega), List.take_left, List.drop_left]

theorem read_tlv_of_le (tag : Tag) {content : Bytes} (hc : 2 ^ 32 ≤ content.length)
    (rest : Bytes) :
    ∃ message, read (tlv tag content ++ rest) = .error (.malformedLength message) := by
  obtain ⟨message, hm⟩ := Length.read_octets_of_le hc (content ++ rest)
  refine ⟨message, ?_⟩
  simp only [read, tlv, List.append_assoc, Tag.read_encode, hm, bind, Except.bind]

end Tlv

namespace Element

def ofTlv (levels : Nat) (t : Tlv) : Except DecodeError Element :=
  if t.tag.constructed then
    match levels with
    | 0 => .error (.decoding s!"Elements nested deeper than {maxDepth} levels")
    | levels + 1 =>
      (readMany (readWithin levels) t.content.length t.content).map (ofChildren t.tag)
  else .ok (ofContent t.tag t.content)

theorem readWithin_eq (levels : Nat) (bytes : Bytes) :
    readWithin levels bytes =
      (Tlv.read bytes).bind fun p ↦ (ofTlv levels p.1).map fun e ↦ (e, p.2) := by
  rw [readWithin.eq_def]
  cases Tlv.read bytes with
  | error e => rfl
  | ok p =>
    obtain ⟨t, rest⟩ := p
    simp only [bind, Except.bind, ofTlv]
    split
    · cases levels with
      | zero => rfl
      | succ levels =>
        simp only
        cases readMany (readWithin levels) t.content.length t.content with
        | error e => rfl
        | ok children => rfl
    · rfl

/-- An element is what its own octets are, whatever follows. -/
theorem read_header (h : Header) {content : Bytes} (hc : content.length = h.length)
    (rest : Bytes) :
    read (h.octets ++ content ++ rest) =
      (decode (h.octets ++ content)).map fun e ↦ (e, rest) := by
  have ht := Tlv.read_header h hc []
  rw [List.append_nil] at ht
  simp only [decode, read, readWithin_eq, ht, Tlv.read_header h hc rest]
  cases Tag.read h.identifier with
  | error e => rfl
  | ok p =>
    simp only [Except.map, Except.bind, bind]
    cases ofTlv maxDepth ⟨p.1, content⟩ with
    | error e => rfl
    | ok e => rfl

theorem readWithin_eq_ok {levels : Nat} {bytes rest : Bytes} {e : Element}
    (h : readWithin levels bytes = .ok (e, rest)) :
    ∃ (head : Header) (content : Bytes),
      bytes = head.octets ++ content ++ rest ∧ content.length = head.length := by
  rw [readWithin_eq] at h
  obtain ⟨⟨t, rest'⟩, ht, he⟩ := bind_eq_ok.1 h
  obtain ⟨e', _, hp⟩ := map_eq_ok.1 he
  cases hp
  obtain ⟨head, hb, hc⟩ := Tlv.read_eq_ok ht
  exact ⟨head, t.content, hb, hc⟩

theorem exists_append_of_readWithin {levels : Nat} {bytes rest : Bytes} {e : Element}
    (h : readWithin levels bytes = .ok (e, rest)) : ∃ taken, bytes = taken ++ rest := by
  obtain ⟨head, content, hb, _⟩ := readWithin_eq_ok h
  exact ⟨head.octets ++ content, hb⟩

end Element

end Ber

end LdapCodec
