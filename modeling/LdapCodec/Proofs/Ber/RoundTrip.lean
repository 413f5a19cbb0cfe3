import LdapCodec.Proofs.Ber.Header

namespace LdapCodec.Ber.Element

/-- What holds of an element when it holds of all its children holds of every element. -/
@[elab_as_elim]
theorem induction {motive : Element → Prop}
    (primitive : ∀ cls number content, motive (.primitive cls number content))
    (constructed : ∀ cls number children, (∀ e ∈ children, motive e) →
      motive (.constructed cls number children)) (e : Element) : motive e :=
  Element.rec (motive_1 := motive) (motive_2 := fun es ↦ ∀ e ∈ es, motive e) primitive constructed
    (by simp) (fun _ _ he hes ↦ List.forall_mem_cons.2 ⟨he, hes⟩) e

def content : Element → Bytes
  | primitive _ _ content => content
  | constructed _ _ children => encodeAll children

theorem encode_eq_tlv (e : Element) : e.encode = tlv e.tag e.content := by
  cases e with
  | primitive cls number content => rfl
  | constructed cls number children => rfl

theorem length_content_lt (e : Element) : e.content.length < e.encode.length := by
  have ht : 0 < e.tag.encode.length := by
    unfold Tag.encode
    split <;> simp
  rw [encode_eq_tlv, tlv, List.length_append, List.length_append]
  omega

theorem length_encode_le {e : Element} {es : List Element} (h : e ∈ es) :
    e.encode.length ≤ (encodeAll es).length := by
  induction es with
  | nil => simp at h
  | cons x es ih =>
    rw [encodeAll, List.length_append]
    rcases List.mem_cons.1 h with rfl | h
    · omega
    · have hl := ih h
      omega

def tooDeep : DecodeError := .decoding "Elements nested deeper than 64 levels"

/-- Reading children one after another comes to the same as reading each of them. The steps
are enough as soon as there is one for each octet. -/
theorem readMany_encodeAll {levels : Nat} {es : List Element}
    (h : ∀ e ∈ es, ∀ rest, readWithin levels (e.encode ++ rest) =
      if e.depth ≤ levels then .ok (e, rest) else .error tooDeep)
    {steps : Nat} (hs : (encodeAll es).length ≤ steps) :
    readMany (readWithin levels) steps (encodeAll es) =
      if depthAll es ≤ levels then .ok es else .error tooDeep := by
  induction es generalizing steps with
  | nil => rw [encodeAll, readMany, if_pos (by simp only [depthAll, Nat.zero_le])]
  | cons e es ih =>
    obtain ⟨he, hes⟩ := List.forall_mem_cons.1 h
    have hp := e.length_content_lt
    rw [encodeAll, List.length_append] at hs
    obtain ⟨steps, rfl⟩ : ∃ n, steps = n + 1 := ⟨steps - 1, by omega⟩
    obtain ⟨b, bs, hb⟩ := List.exists_cons_of_length_pos (show 0 < e.encode.length by omega)
    have hr := he (encodeAll es)
    have ht := ih hes (show (encodeAll es).length ≤ steps by omega)
    have hm : depthAll (e :: es) = max e.depth (depthAll es) := by rw [depthAll]
    rw [encodeAll]
    simp only [hb, List.cons_append] at hr ⊢
    rw [readMany.eq_3 _ _ _ (by simp), hr]
    by_cases hd : e.depth ≤ levels
    · simp only [if_pos hd, bind, Except.bind, ht]
      by_cases hds : depthAll es ≤ levels
      · rw [if_pos hds, if_pos (by omega)]
      · rw [if_neg hds, if_neg (by omega)]
    · rw [if_neg hd, if_neg (by omega)]
      rfl

/-- An element that was written reads back in front of anything, if its constructed
elements go no deeper than allowed. -/
theorem readWithin_encode (e : Element) (hc : e.content.length < 2 ^ 32) (levels : Nat)
    (rest : Bytes) :
    readWithin levels (e.encode ++ rest) =
      if e.depth ≤ levels then .ok (e, rest) else .error tooDeep := by
  induction e using induction generalizing levels rest with
  | primitive cls number content =>
    have hd : (primitive cls number content).depth = 0 := by rw [depth]
    rw [encode_eq_tlv, readWithin.eq_def, Tlv.read_tlv _ hc, if_pos (by omega)]
    rfl
  | constructed cls number children ih =>
    have hd : (constructed cls number children).depth = 1 + depthAll children := by rw [depth]
    rw [encode_eq_tlv, readWithin.eq_def, Tlv.read_tlv _ hc]
    cases levels with
    | zero =>
      rw [if_neg (by omega)]
      rfl
    | succ levels =>
      have hm : readMany (readWithin levels) (encodeAll children).length (encodeAll children) =
          if depthAll children ≤ levels then .ok children else .error tooDeep := by
        refine readMany_encodeAll (fun e he rest ↦ ih e he ?_ levels rest) (Nat.le_refl _)
        have h₁ := e.length_content_lt
        have h₂ := length_encode_le he
        simp only [content] at hc
        omega
      simp only [bind, Except.bind, tag, content, if_true, hm]
      by_cases hds : depthAll children ≤ levels
      · rw [if_pos hds, if_pos (by omega)]
        rfl
      · rw [if_neg hds, if_neg (by omega)]

theorem decode_encode {e : Element} (hc : e.content.length < 2 ^ 32) :
    decode e.encode = if e.depth ≤ maxDepth then .ok e else .error tooDeep := by
  have hr := readWithin_encode e hc maxDepth []
  rw [List.append_nil] at hr
  rw [decode, read, hr]
  split <;> rfl

theorem decode_encode_of_le {e : Element} (hc : 2 ^ 32 ≤ e.content.length) :
    ∃ message, decode e.encode = .error (.malformedLength message) := by
  obtain ⟨message, hm⟩ := Tlv.read_tlv_of_le e.tag hc []
  rw [List.append_nil, ← encode_eq_tlv] at hm
  refine ⟨message, ?_⟩
  rw [decode, read, readWithin.eq_def, hm]
  rfl

/-- Reading undoes writing for the elements with at most 64 constructed ones inside one
another and a content of less than 2^32 octets. Longer contents are refused for their
length, deeper elements for their depth. -/
theorem decode_encode_limits (e : Element) :
    (decode e.encode = .ok e ↔ e.depth ≤ 64 ∧ e.content.length < 2 ^ 32) ∧
    ((∃ err, decode e.encode = .error err ∧ err.kind = .malformedLength) ↔
      2 ^ 32 ≤ e.content.length) ∧
    ((∃ err, decode e.encode = .error err ∧ err.kind = .decoding) ↔
      e.content.length < 2 ^ 32 ∧ 64 < e.depth) := by
  rcases Nat.lt_or_ge e.content.length (2 ^ 32) with hc | hc
  · have hd := decode_encode hc
    by_cases h : e.depth ≤ 64
    · have he : decode e.encode = .ok e := hd.trans (if_pos h)
      generalize 2 ^ 32 = bound at hc ⊢
      simp [he, hc, h, Nat.not_le.2 hc, Nat.not_lt.2 h]
    · have he : decode e.encode = .error tooDeep := hd.trans (if_neg h)
      generalize 2 ^ 32 = bound at hc ⊢
      simp [he, hc, h, Nat.not_le.2 hc, Nat.not_le.1 h, tooDeep, DecodeError.decoding]
  · obtain ⟨message, he⟩ := decode_encode_of_le hc
    generalize 2 ^ 32 = bound at hc ⊢
    simp [he, hc, Nat.not_lt.2 hc, DecodeError.malformedLength]

end LdapCodec.Ber.Element
