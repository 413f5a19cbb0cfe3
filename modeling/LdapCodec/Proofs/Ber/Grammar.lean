import Mathlib.Data.List.Forall2
import LdapCodec.Proofs.Ber.Fields

namespace LdapCodec.Ber

namespace Tag

def groupsValue (n : Nat) (gs : Bytes) : Nat := gs.foldl (fun n g ↦ n * 128 + g.toNat % 128) n

/-- The octets that stand for a tag: its class, its form and a number up to 30 in one octet, or
all five low bits set and any number in groups, which may be padded. -/
inductive SpelledBy (tag : Tag) : Bytes → Prop
  | low (hn : tag.number.toNat ≤ 30) : tag.SpelledBy [tag.octet tag.number.toNat]
  | high {gs : Bytes} (hg : IsGroups gs) (hn : groupsValue 0 gs = tag.number.toNat) :
      tag.SpelledBy (tag.octet 31 :: gs)

theorem le_groupsValue (n : Nat) (gs : Bytes) : n ≤ groupsValue n gs := by
  induction gs generalizing n with
  | nil => exact Nat.le_refl n
  | cons g gs ih =>
    have h := ih (n * 128 + g.toNat % 128)
    rw [groupsValue, List.foldl_cons]
    exact Nat.le_trans (by omega) h

theorem readGroups_eq {gs : Bytes} (hg : IsGroups gs) (acc : UInt32) :
    readGroups acc gs =
      if groupsValue acc.toNat gs < 2 ^ 32 then .ok (UInt32.ofNat (groupsValue acc.toNat gs), [])
      else .error (.unexpectedTag "Tag number does not fit in 32 bits") := by
  induction hg generalizing acc with
  | @last b hb =>
    have hv : groupsValue acc.toNat [b] = acc.toNat * 128 + b.toNat % 128 := rfl
    rw [readGroups_cons, hv, if_pos hb]
    by_cases ha : 0x2000000 ≤ acc.toNat
    · rw [if_pos ha, if_neg (by omega)]
    · rw [if_neg ha, if_pos (by omega), ← toNat_pushGroup (by omega), UInt32.ofNat_toNat]
  | @more b gs hb hg ih =>
    have hv : groupsValue acc.toNat (b :: gs) =
        groupsValue (acc.toNat * 128 + b.toNat % 128) gs := rfl
    rw [readGroups_cons, hv, if_neg (Nat.not_lt.2 hb), ih]
    by_cases ha : 0x2000000 ≤ acc.toNat
    · have hl := le_groupsValue (acc.toNat * 128 + b.toNat % 128) gs
      rw [if_pos ha, if_neg (by omega)]
    · rw [if_neg ha, toNat_pushGroup (by omega)]

theorem SpelledBy.isIdentifier {tag : Tag} {id : Bytes} (h : tag.SpelledBy id) :
    IsIdentifier id := by
  cases h with
  | low hn =>
    refine .low ?_
    rw [tag.octet_mod (by omega)]
    omega
  | high hg hn => exact .high (tag.octet_mod (by omega)) hg

theorem SpelledBy.read {tag : Tag} {id : Bytes} (h : tag.SpelledBy id) :
    read id = .ok (tag, []) := by
  cases h with
  | low hn =>
    have hl := tag.octet_mod (show tag.number.toNat < 32 by omega)
    rw [read_low (by omega), ofOctet_octet tag (by omega), UInt32.ofNat_toNat]
  | @high gs hg hn =>
    have hv : groupsValue 0 gs < 2 ^ 32 := hn ▸ tag.number.toNat_lt
    rw [read_high (tag.octet_mod (by omega)), readGroups_eq hg, UInt32.toNat_zero, if_pos hv, hn,
      ofOctet_octet tag (by omega), UInt32.ofNat_toNat]
    rfl

theorem octet_eq (b : UInt8) (number : UInt32) :
    octet ⟨TagClass.ofOctet b, isConstructed b, number⟩ (b.toNat % 32) = b := by
  have hc : (TagClass.ofOctet b).code = b.toNat / 64 := by
    have hq : b.toNat / 64 = 0 ∨ b.toNat / 64 = 1 ∨ b.toNat / 64 = 2 ∨ b.toNat / 64 = 3 := by
      have hb := b.toNat_lt
      omega
    rcases hq with hq | hq | hq | hq <;> simp only [TagClass.ofOctet, hq, TagClass.code]
  rw [← UInt8.toNat_inj, toNat_octet _ (Nat.mod_lt _ (by omega))]
  simp only [hc, isConstructed, decide_eq_true_eq]
  split <;> omega

theorem SpelledBy.of_read {tag : Tag} {id left : Bytes} (hid : IsIdentifier id)
    (h : Tag.read id = .ok (tag, left)) : tag.SpelledBy id := by
  cases hid with
  | @low b hb =>
    rw [read_low hb] at h
    cases h
    have hn : (ofOctet b).number.toNat = b.toNat % 32 := by
      simp only [ofOctet, UInt32.toNat_ofNat']
      omega
    have hs : (ofOctet b).SpelledBy _ := .low (by omega)
    rwa [hn, ofOctet, octet_eq] at hs
  | @high b gs hb hg =>
    rw [read_high hb, readGroups_eq hg, UInt32.toNat_zero] at h
    by_cases hv : groupsValue 0 gs < 2 ^ 32
    · rw [if_pos hv] at h
      cases h
      let tag : Tag := ⟨TagClass.ofOctet b, isConstructed b, UInt32.ofNat (groupsValue 0 gs)⟩
      have hn : groupsValue 0 gs = tag.number.toNat := by
        simp only [tag, UInt32.toNat_ofNat']
        omega
      have hs : tag.SpelledBy _ := .high hg hn
      rwa [← hb, octet_eq] at hs
    · rw [if_neg hv] at h
      cases h

end Tag

namespace Tlv

theorem read_spelled {tag : Tag} {id size content : Bytes} (hid : tag.SpelledBy id)
    (hs : IsLength size content.length) (rest : Bytes) :
    read (id ++ size ++ content ++ rest) = .ok (⟨tag, content⟩, rest) := by
  have hr := read_header ⟨id, size, content.length, hid.isIdentifier, hs⟩ rfl rest
  rwa [Header.octets, hid.read] at hr

theorem exists_spelled_of_read {bytes rest : Bytes} {t : Tlv} (h : read bytes = .ok (t, rest)) :
    ∃ id size, t.tag.SpelledBy id ∧ IsLength size t.content.length ∧
      bytes = id ++ size ++ t.content ++ rest := by
  obtain ⟨tag, content⟩ := t
  obtain ⟨head, rfl, hc⟩ := read_eq_ok h
  rw [read_header head hc, map_eq_ok] at h
  obtain ⟨⟨tag', left⟩, htag, ht⟩ := h
  cases ht
  have hsize : IsLength head.size content.length := by
    rw [hc]
    exact head.isLength
  exact ⟨head.identifier, head.size, .of_read head.isIdentifier htag, hsize, rfl⟩

end Tlv

/-- The octets that stand for an element: an identifier, a length and a content, which is that
of a primitive element as it is, and of a constructed one its children, one after another. -/
inductive Spells : Bytes → Element → Prop
  | primitive {id size content : Bytes} {cls : TagClass} {number : UInt32}
      (hid : Tag.SpelledBy ⟨cls, false, number⟩ id) (hs : IsLength size content.length) :
      Spells (id ++ size ++ content) (.primitive cls number content)
  | constructed {id size : Bytes} {cls : TagClass} {number : UInt32} {parts : List Bytes}
      {children : List Element} (hid : Tag.SpelledBy ⟨cls, true, number⟩ id)
      (hs : IsLength size parts.flatten.length) (hp : List.Forall₂ Spells parts children) :
      Spells (id ++ size ++ parts.flatten) (.constructed cls number children)

theorem Tag.SpelledBy.length_pos {tag : Tag} {id : Bytes} (h : tag.SpelledBy id) :
    0 < id.length := by
  cases h with
  | low hn => simp
  | high hg hn => simp

theorem Spells.ne_nil {part : Bytes} {e : Element} (h : Spells part e) : part ≠ [] := by
  rw [← List.length_pos_iff]
  cases h with
  | primitive hid hs =>
    have hl := hid.length_pos
    simp only [List.length_append]
    omega
  | constructed hid hs hp =>
    have hl := hid.length_pos
    simp only [List.length_append]
    omega

section

variable {α : Type} {read : Bytes → Except DecodeError (α × Bytes)}

theorem readMany_succ {bytes rest : Bytes} {x : α} (hb : bytes ≠ [])
    (hr : read bytes = .ok (x, rest)) (steps : Nat) :
    readMany read (steps + 1) bytes = (readMany read steps rest).map (x :: ·) := by
  rw [readMany.eq_3 _ _ _ hb, hr, ok_bind]
  simp only
  cases readMany read steps rest with
  | error err => rfl
  | ok xs => rfl

theorem exists_first_of_readMany {steps : Nat} {bytes : Bytes} {xs : List α} (hb : bytes ≠ [])
    (hr : readMany read steps bytes = .ok xs) :
    ∃ x rest n ys, read bytes = .ok (x, rest) ∧ readMany read n rest = .ok ys ∧ xs = x :: ys := by
  cases steps with
  | zero =>
    rw [readMany.eq_2 _ _ hb] at hr
    cases hr
  | succ steps =>
    rw [readMany.eq_3 _ _ _ hb] at hr
    obtain ⟨⟨x, rest⟩, hx, hr⟩ := bind_eq_ok.1 hr
    obtain ⟨ys, hys, hr⟩ := bind_eq_ok.1 hr
    cases hr
    exact ⟨x, rest, steps, ys, hx, hys, rfl⟩

/-- If what is read from the front is always a part, then reading to the end finds parts. -/
theorem exists_parts_of_readMany {P : Bytes → α → Prop}
    (h : ∀ bytes x rest, read bytes = .ok (x, rest) → ∃ part, bytes = part ++ rest ∧ P part x)
    {steps : Nat} {bytes : Bytes} {xs : List α} (hr : readMany read steps bytes = .ok xs) :
    ∃ parts : List Bytes, bytes = parts.flatten ∧ List.Forall₂ P parts xs := by
  induction xs generalizing steps bytes with
  | nil =>
    by_cases hb : bytes = []
    · exact ⟨[], hb, .nil⟩
    · obtain ⟨_, _, _, _, _, _, hx⟩ := exists_first_of_readMany hb hr
      cases hx
  | cons x xs ih =>
    have hb : bytes ≠ [] := by
      rintro rfl
      rw [readMany] at hr
      cases hr
    obtain ⟨_, rest, n, _, hx, hxs, he⟩ := exists_first_of_readMany hb hr
    cases he
    obtain ⟨part, rfl, hp⟩ := h _ _ _ hx
    obtain ⟨parts, rfl, hps⟩ := ih hxs
    exact ⟨part :: parts, rfl, .cons hp hps⟩

end

namespace Element

/-- Only octets of the grammar are read as an element. -/
theorem spells_of_readWithin {levels : Nat} {bytes rest : Bytes} {e : Element}
    (h : readWithin levels bytes = .ok (e, rest)) :
    ∃ part, bytes = part ++ rest ∧ e.depth ≤ levels ∧ Spells part e := by
  -- Strong induction, as a header is taken apart before it says if there are levels to go down.
  induction levels using Nat.strongRecOn generalizing bytes rest e with
  | ind levels ih =>
    rw [readWithin_eq] at h
    obtain ⟨⟨⟨⟨cls, form, number⟩, content⟩, rest'⟩, ht, h⟩ := bind_eq_ok.1 h
    obtain ⟨e', he, hp⟩ := map_eq_ok.1 h
    cases hp
    obtain ⟨id, size, hid, hs, rfl⟩ := Tlv.exists_spelled_of_read ht
    cases form with
    | false =>
      cases he
      refine ⟨id ++ size ++ content, rfl, ?_, .primitive hid hs⟩
      rw [depth_ofContent]
      exact Nat.zero_le levels
    | true =>
      cases levels with
      | zero => cases he
      | succ levels =>
        obtain ⟨children, hc, rfl⟩ := map_eq_ok.1 he
        obtain ⟨parts, rfl, hparts⟩ := exists_parts_of_readMany
          (fun _ _ _ hr ↦ ih levels (Nat.lt_succ_self levels) hr) hc
        have hd : depthAll children ≤ levels := by
          rw [depthAll_le_iff]
          exact ((List.forall₂_and_left _ _).1 hparts.flip).1
        refine ⟨id ++ size ++ parts.flatten, rfl, ?_, .constructed hid hs ?_⟩
        · rw [depth_ofChildren]
          omega
        · exact hparts.imp fun _ _ hp ↦ hp.2

theorem readMany_flatten {levels : Nat} {parts : List Bytes} {children : List Element}
    (hp : List.Forall₂ Spells parts children)
    (hr : ∀ e ∈ children, ∀ part, Spells part e → ∀ rest,
      readWithin levels (part ++ rest) = .ok (e, rest))
    {steps : Nat} (hs : parts.flatten.length ≤ steps) :
    readMany (readWithin levels) steps parts.flatten = .ok children := by
  induction hp generalizing steps with
  | nil => rw [List.flatten_nil, readMany]
  | @cons part e parts children hpe hps ih =>
    obtain ⟨he, hes⟩ := List.forall_mem_cons.1 hr
    have hl := List.length_pos_iff.2 hpe.ne_nil
    rw [List.flatten_cons, List.length_append] at hs
    obtain ⟨steps, rfl⟩ : ∃ n, steps = n + 1 := ⟨steps - 1, by omega⟩
    have hne : part ++ parts.flatten ≠ [] := List.append_ne_nil_of_left_ne_nil hpe.ne_nil _
    rw [List.flatten_cons, readMany_succ hne (he part hpe parts.flatten), ih hes (by omega)]
    rfl

/-- The octets of an element are read as it in front of anything, if its constructed
elements go no deeper than allowed. -/
theorem readWithin_of_spells {e : Element} {part : Bytes} (h : Spells part e) {levels : Nat}
    (hd : e.depth ≤ levels) (rest : Bytes) : readWithin levels (part ++ rest) = .ok (e, rest) := by
  induction e using induction generalizing part levels rest with
  | primitive cls number content =>
    cases h with
    | primitive hid hs =>
      rw [readWithin_eq, Tlv.read_spelled hid hs]
      rfl
  | constructed cls number children ih =>
    cases h with
    | constructed hid hs hp =>
      rw [depth] at hd
      obtain ⟨levels, rfl⟩ : ∃ n, levels = n + 1 := ⟨levels - 1, by omega⟩
      have hc : depthAll children ≤ levels := by omega
      rw [depthAll_le_iff] at hc
      have hm := readMany_flatten hp
        (fun e he part hpart rest ↦ ih e he hpart (hc e he) rest) (Nat.le_refl _)
      rw [readWithin_eq, Tlv.read_spelled hid hs]
      simp only [Except.bind, ofTlv, if_true, hm]
      rfl

theorem read_eq_ok_iff {bytes rest : Bytes} {e : Element} :
    read bytes = .ok (e, rest) ↔ ∃ part, bytes = part ++ rest ∧ e.depth ≤ 64 ∧ Spells part e := by
  constructor
  · exact spells_of_readWithin
  · rintro ⟨part, rfl, hd, h⟩
    exact readWithin_of_spells h hd rest

theorem decode_eq_ok_iff {bytes : Bytes} {e : Element} :
    decode bytes = .ok e ↔ e.depth ≤ 64 ∧ Spells bytes e := by
  constructor
  · intro h
    obtain ⟨⟨e', rest⟩, hr, he⟩ := bind_eq_ok.1 h
    obtain ⟨part, rfl, hd, hs⟩ := read_eq_ok_iff.1 hr
    simp only at he
    split at he
    · rename_i hrest
      cases he
      rw [hrest, List.append_nil]
      exact ⟨hd, hs⟩
    · cases he
  · rintro ⟨hd, hs⟩
    have hr : read bytes = .ok (e, []) :=
      read_eq_ok_iff.2 ⟨bytes, (List.append_nil bytes).symm, hd, hs⟩
    rw [decode, hr, ok_bind]
    exact if_pos rfl

end Element

open Element

/-- Octets are the front of other octets in at most one way that makes them an element. -/
theorem Spells.unique {part part' rest rest' : Bytes} {e e' : Element} (h : Spells part e)
    (h' : Spells part' e') (hb : part ++ rest = part' ++ rest') :
    part = part' ∧ e = e' ∧ rest = rest' := by
  have hr := readWithin_of_spells h (Nat.le_max_left e.depth e'.depth) rest
  rw [hb, readWithin_of_spells h' (Nat.le_max_right e.depth e'.depth) rest'] at hr
  cases hr
  exact ⟨List.append_cancel_right hb, rfl, rfl⟩

/-- Where octets are taken for the beginning of an element: at their front, and behind the
first children of a constructed element at their front. -/
inductive BeginsIn (inner : Bytes) : Bytes → Prop
  | front : BeginsIn inner inner
  | child {id size tail rest : Bytes} {cls : TagClass} {number : UInt32} {parts : List Bytes}
      {children : List Element} (hid : Tag.SpelledBy ⟨cls, true, number⟩ id)
      (hs : IsLength size (parts.flatten ++ tail).length) (hp : List.Forall₂ Spells parts children)
      (ht : BeginsIn inner tail) : BeginsIn inner (id ++ size ++ (parts.flatten ++ tail) ++ rest)

theorem BeginsIn.ne_nil {inner bytes : Bytes} (h : BeginsIn inner bytes) (hi : inner ≠ []) :
    bytes ≠ [] := by
  cases h with
  | front => exact hi
  | child hid hs hp ht =>
    have hl := hid.length_pos
    rw [← List.length_pos_iff]
    simp only [List.length_append]
    omega

theorem readMany_ne_ok {levels : Nat} {parts : List Bytes} {children : List Element} {tail : Bytes}
    (hp : List.Forall₂ Spells parts children) (hn : tail ≠ [])
    (ht : ∀ p, readWithin levels tail ≠ .ok p) (steps : Nat) (xs : List Element) :
    readMany (readWithin levels) steps (parts.flatten ++ tail) ≠ .ok xs := by
  intro hr
  induction hp generalizing steps xs with
  | nil =>
    obtain ⟨_, _, _, _, hx, _⟩ := exists_first_of_readMany hn hr
    exact ht _ hx
  | @cons part child parts children hc hps ih =>
    rw [List.flatten_cons, List.append_assoc] at hr
    obtain ⟨x, rest, n, ys, hx, hys, _⟩ :=
      exists_first_of_readMany (List.append_ne_nil_of_left_ne_nil hc.ne_nil _) hr
    obtain ⟨part', hb, _, hx⟩ := spells_of_readWithin hx
    obtain ⟨_, _, rfl⟩ := hc.unique hx hb
    exact ih n ys hys

/-- What cannot be read anywhere cannot be read inside of an element either. -/
theorem BeginsIn.readWithin_ne_ok {inner bytes : Bytes} (h : BeginsIn inner bytes)
    (hn : inner ≠ []) (hi : ∀ levels p, readWithin levels inner ≠ .ok p) (levels : Nat)
    (p : Element × Bytes) : readWithin levels bytes ≠ .ok p := by
  induction h generalizing levels p with
  | front => exact hi levels p
  | child hid hs hp ht ih =>
    intro hr
    rw [readWithin_eq, Tlv.read_spelled hid hs] at hr
    obtain ⟨e, he, _⟩ := map_eq_ok.1 hr
    cases levels with
    | zero => cases he
    | succ levels =>
      obtain ⟨children, hc, _⟩ := map_eq_ok.1 he
      exact readMany_ne_ok hp (ht.ne_nil hn) (ih levels) _ children hc

theorem readWithin_indefinite_ne_ok {id : Bytes} (hid : IsIdentifier id) (more : Bytes)
    (levels : Nat) (p : Element × Bytes) : readWithin levels (id ++ 0x80 :: more) ≠ .ok p := by
  intro hr
  rw [readWithin_eq] at hr
  obtain ⟨t, ht, _⟩ := bind_eq_ok.1 hr
  obtain ⟨⟨tag, body⟩, htag, hl⟩ := bind_eq_ok.1 ht
  rw [Tag.read_append hid, map_eq_ok] at htag
  obtain ⟨_, _, hp⟩ := htag
  cases hp
  cases hl

/-- An element is read from exactly the octets of the grammar, with at most 64 constructed
elements inside one another. A length that leaves the end open is refused wherever an element
begins. -/
theorem read_iff_spells (bytes : Bytes) :
    (∀ e rest, read bytes = .ok (e, rest) ↔
      ∃ part, bytes = part ++ rest ∧ e.depth ≤ 64 ∧ Spells part e) ∧
    ∀ id more, IsIdentifier id → BeginsIn (id ++ 0x80 :: more) bytes →
      ∃ err, read bytes = .error err := by
  constructor
  · intro e rest
    exact read_eq_ok_iff
  · intro id more hid hb
    have hne := hb.readWithin_ne_ok (by simp) (readWithin_indefinite_ne_ok hid more) maxDepth
    cases hr : read bytes with
    | error err => exact ⟨err, rfl⟩
    | ok p => exact absurd hr (hne p)

/-- A tag number and a length in padded octets, with another element behind, and a sequence
without a length behind the first child of a sequence. -/
theorem read_iff_spells_padded :
    (∃ part : Bytes, [0x3F, 0x80, 0x10, 0x82, 0, 3, 4, 0x81, 0, 5, 0] = part ++ [5, 0] ∧
      (sequence [octetString []]).depth ≤ 64 ∧ Spells part (sequence [octetString []])) ∧
    IsIdentifier [0x30] ∧ BeginsIn ([0x30] ++ 0x80 :: [0, 0]) [0x30, 6, 5, 0, 0x30, 0x80, 0, 0] ∧
      ∃ err, read [0x30, 6, 5, 0, 0x30, 0x80, 0, 0] = .error err := by
  have hid : IsIdentifier [0x30] := .low (by decide)
  have hsequence : Tag.sequence.SpelledBy [0x30] := .low (by decide)
  have hnull : Spells ([5] ++ [0] ++ []) null :=
    .primitive (.low (by decide)) (.short (by decide))
  have hlength : IsLength [6] ([[5, 0]].flatten ++ [0x30, 0x80, 0, 0]).length :=
    .short (by decide)
  have hb : BeginsIn ([0x30] ++ 0x80 :: [0, 0])
      ([0x30] ++ [6] ++ ([[5, 0]].flatten ++ [0x30, 0x80, 0, 0]) ++ []) :=
    .child hsequence hlength (.cons hnull .nil) .front
  have hpadded : read [0x3F, 0x80, 0x10, 0x82, 0, 3, 4, 0x81, 0, 5, 0] =
      .ok (sequence [octetString []], [5, 0]) := by decide +kernel
  exact ⟨((read_iff_spells _).1 _ _).1 hpadded, hid, hb, (read_iff_spells _).2 _ _ hid hb⟩

end LdapCodec.Ber
