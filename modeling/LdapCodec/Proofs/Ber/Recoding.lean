import LdapCodec.Proofs.Ber.Shortest

namespace LdapCodec.Ber

namespace Integer

theorem length_significant_le (bytes : Bytes) : (significant bytes).length ≤ bytes.length := by
  fun_induction significant bytes with
  | case1 a b rest h ih => exact Nat.le_succ_of_le ih
  | case2 a b rest h => exact Nat.le_refl _
  | case3 bytes h => exact Nat.le_refl _

theorem length_octets_le_of_decode {bytes : Bytes} {v : Int} (h : decode bytes = .ok v) :
    (octets v).length ≤ bytes.length := by
  unfold decode at h
  split at h
  · cases h
  · rename_i hn
    obtain ⟨_, rfl⟩ := ite_error_eq_ok_iff.1 h
    have hs := (octets_shortest _ (significant bytes) ⟨significant_ne_nil hn, rfl⟩).1
    exact Nat.le_trans hs (length_significant_le bytes)

end Integer

namespace Element

theorem encodeAll_append (es fs : List Element) :
    encodeAll (es ++ fs) = encodeAll es ++ encodeAll fs := by
  induction es with
  | nil => rfl
  | cons e es ih => rw [List.cons_append, encodeAll, encodeAll, ih, List.append_assoc]

/-- An element with an identifier of one octet is no longer than any with as much content. -/
theorem length_encode_le_of_content {e f : Element} (hn : e.tag.number.toNat ≤ 30)
    (hc : e.content.length ≤ f.content.length) : e.encode.length ≤ f.encode.length := by
  have he : e.tag.encode.length = 1 := by
    rw [Tag.encode, if_pos hn]
    rfl
  have hf : 1 ≤ f.tag.encode.length := by
    unfold Tag.encode
    split <;> simp
  have hl := Length.length_octets_mono hc
  rw [encode_eq_tlv, encode_eq_tlv, tlv, tlv]
  simp only [List.length_append]
  omega

end Element

open Element

/-- What is read from an element is written again under `tag`, an identifier of one octet, and
with no more content. -/
structure Recodes {α : Type} (tag : Tag) (read : Element → Except DecodeError α)
    (write : α → Element) : Prop where
  number_le : tag.number.toNat ≤ 30
  tag_write : ∀ x, (write x).tag = tag
  length_content_le : ∀ e x, read e = .ok x → (write x).content.length ≤ e.content.length

namespace Recodes

theorem octets (tag : Tag) (hn : tag.number.toNat ≤ 30) (hp : tag.constructed = false) :
    Recodes tag asOctets (ofContent tag) := by
  refine ⟨hn, fun _ ↦ by rw [ofContent, Element.tag, ← hp], fun e bytes hr ↦ ?_⟩
  rw [content_of_asOctets hr]
  exact Nat.le_refl _

theorem text (tag : Tag) (hn : tag.number.toNat ≤ 30) (hp : tag.constructed = false) :
    Recodes tag asText (fun s ↦ ofContent tag (Utf8.encode s)) := by
  refine ⟨hn, fun _ ↦ by rw [ofContent, Element.tag, ← hp], fun e s hr ↦ ?_⟩
  rw [content_of_asText hr]
  exact Nat.le_refl _

theorem boolean : Recodes .boolean asBoolean Element.boolean := by
  refine ⟨by decide, tag_boolean, fun e v hr ↦ ?_⟩
  obtain ⟨bytes, hb, hr⟩ := bind_eq_ok.1 hr
  split at hr
  · rw [content_of_asOctets hb]
    exact Nat.le_refl 1
  · cases hr

theorem integer (tag : Tag) (hn : tag.number.toNat ≤ 30) (hp : tag.constructed = false) :
    Recodes tag asInteger (fun v ↦ ofContent tag (Integer.octets v)) := by
  refine ⟨hn, fun _ ↦ by rw [ofContent, Element.tag, ← hp], fun e v hr ↦ ?_⟩
  obtain ⟨bytes, hb, hr⟩ := bind_eq_ok.1 hr
  rw [content_of_asOctets hb]
  exact Integer.length_octets_le_of_decode hr

theorem enumerated : Recodes .enumerated asInteger Element.enumerated :=
  integer .enumerated (by decide) rfl

variable {α : Type} {tag : Tag} {read : Element → Except DecodeError α} {write : α → Element}

/-- A reader that makes something of what another one reads. -/
theorem comap {β : Type} (h : Recodes tag read write) (f : β → α)
    {read' : Element → Except DecodeError β} (hr : ∀ e y, read' e = .ok y → read e = .ok (f y)) :
    Recodes tag read' (fun y ↦ write (f y)) :=
  ⟨h.number_le, fun y ↦ h.tag_write (f y), fun e y hy ↦ h.length_content_le e (f y) (hr e y hy)⟩

theorem within (h : Recodes tag read write) (what : String) :
    Recodes tag (fun e ↦ within what (read e)) write :=
  h.comap id fun _ _ ↦ within_eq_ok.1

theorem textField (what : String) : Recodes .octetString (textField · what) Element.text := by
  refine (text .octetString (by decide) rfl).comap id fun e s hs ↦ ?_
  obtain ⟨_, _, hs⟩ := bind_eq_ok.1 hs
  exact within_eq_ok.1 hs

theorem length_encode_le (h : Recodes tag read write) {e : Element} {x : α} (hr : read e = .ok x) :
    (write x).encode.length ≤ e.encode.length := by
  refine length_encode_le_of_content ?_ (h.length_content_le e x hr)
  rw [h.tag_write]
  exact h.number_le

/-- Elements that are read one by one are no longer when they are written again. -/
theorem length_mapM_le (h : Recodes tag read write) {es : List Element} {xs : List α}
    (hr : es.mapM read = .ok xs) : (encodeAll (xs.map write)).length ≤ (encodeAll es).length := by
  induction es generalizing xs with
  | nil =>
    cases hr
    exact Nat.le_refl _
  | cons e es ih =>
    rw [List.mapM_cons] at hr
    obtain ⟨x, hx, hr⟩ := bind_eq_ok.1 hr
    obtain ⟨ys, hys, hr⟩ := bind_eq_ok.1 hr
    cases hr
    have he := h.length_encode_le hx
    have hes := ih hys
    rw [List.map_cons, encodeAll, encodeAll, List.length_append, List.length_append]
    omega

theorem children (h : Recodes tag read write) {around : Tag} (hn : around.number.toNat ≤ 30)
    (hc : around.constructed = true) :
    Recodes around (fun e ↦ e.asChildren >>= (List.mapM read ·))
      (fun xs ↦ ofChildren around (xs.map write)) := by
  refine ⟨hn, fun _ ↦ by rw [ofChildren, Element.tag, ← hc], fun e xs hr ↦ ?_⟩
  obtain ⟨es, hes, hr⟩ := bind_eq_ok.1 hr
  rw [content_of_asChildren hes]
  exact h.length_mapM_le hr

/-- A field that may be missing takes no more octets than were read for it. -/
theorem length_optionalField_le (h : Recodes tag read write) {place : Tag}
    {es rest : List Element} {o : Option α} (hr : optionalField place read es = .ok (o, rest)) :
    (encodeAll (o.map write).toList).length + (encodeAll rest).length ≤ (encodeAll es).length := by
  obtain ⟨rfl, rfl, -⟩ | ⟨e, x, rfl, rfl, -, hx⟩ := optionalField_eq_ok_iff.1 hr
  · simp [encodeAll]
  · have he := h.length_encode_le hx
    simp only [Option.map_some, Option.toList_some, encodeAll, List.length_append, List.length_nil]
    omega

theorem length_last_le (h : Recodes tag read write) {place : Tag} {es : List Element}
    {o : Option α} (hr : optionalField place read es = .ok (o, [])) :
    (encodeAll (o.map write).toList).length ≤ (encodeAll es).length :=
  h.length_optionalField_le hr

end Recodes

/-- What a field may add to the octets to write is bounded by its own. -/
theorem length_orderedFields_le {α : Type} {what : String} (size : α → Nat)
    {read : α → Element → Except DecodeError (Nat × α)}
    (hr : ∀ x e place y, read x e = .ok (place, y) → size y ≤ size x + e.encode.length)
    {next : Nat} {x y : α} {es : List Element} (h : orderedFields what read next x es = .ok y) :
    size y ≤ size x + (encodeAll es).length := by
  induction es generalizing next x with
  | nil =>
    cases h
    exact Nat.le_add_right _ _
  | cons e es ih =>
    obtain ⟨⟨place, z⟩, hz, h⟩ := bind_eq_ok.1 h
    have he := hr x e place z hz
    dsimp only at h
    split at h
    · cases h
    · have hes := ih h
      rw [encodeAll, List.length_append]
      omega

end LdapCodec.Ber
