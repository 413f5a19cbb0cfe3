import LdapCodec.Proofs.Ber.Recoding
import LdapCodec.Proofs.Envelope

namespace LdapCodec

open Ber
open Envelope (decode encode)

namespace Envelope

/-- To read octets as an envelope and to write it again takes no more octets, and these are
read as the same envelope. -/
def Settles (E : Type) {H : outParam Type} [Envelope E H] : Prop :=
  ∀ bytes (x : E), decode bytes = .ok x →
    decode (encode x) = .ok x ∧ (encode x).length ≤ bytes.length

variable {E H : Type} [Envelope E H] [Envelope.Lawful E]

theorem settles_of_recodes {tag : Tag}
    (hs : ∀ e (x : E), ofElement e = .ok x → Lawful.Sound x)
    (hr : Recodes tag ofElement (toElement : E → Element)) : Settles E := by
  intro bytes x h
  obtain ⟨e, he, hx⟩ := bind_eq_ok.1 h
  have hspells := (Element.decode_eq_ok_iff.1 he).2
  have hcontent : (toElement x).content.length < 2 ^ 32 :=
    Nat.lt_of_le_of_lt (hr.length_content_le e x hx) (Element.length_content_lt_of_spells hspells)
  constructor
  · exact decode_encode_of_content (hs e x hx) hcontent
  · exact Nat.le_trans (hr.length_encode_le hx) (e.encode_shortest bytes hspells).1

end Envelope

/-- What a control is read from: its identifier, perhaps the flag, perhaps the value. -/
theorem Control.fields_of_ofElement {e : Element} {c : Control} (h : ofElement e = .ok c) :
    c.oid ≠ "" ∧ ∃ rest flag values, e = .sequence (.text c.oid :: rest) ∧
      optionalField .boolean (fun e ↦ within "Control criticality" e.asBoolean) rest =
        .ok (flag, values) ∧ c.critical = flag.getD false ∧
      optionalField .octetString Element.asOctets values = .ok (c.value, []) := by
  obtain ⟨children, hchildren, h⟩ := bind_eq_ok.1 h
  obtain ⟨_, _, h⟩ := bind_eq_ok.1 h
  obtain ⟨_, htag, hchildren⟩ := bind_eq_ok.1 (within_eq_ok.1 hchildren)
  have he := Element.eq_ofChildren_of_asChildren (Element.tag_of_expectTag htag) hchildren
  cases children with
  | nil => cases h
  | cons first rest =>
    simp only at h
    split at h
    · cases h
    · rename_i htag
      obtain ⟨oid, hoid, h⟩ := bind_eq_ok.1 h
      split at h
      · cases h
      · rename_i hne
        have hoctets := Element.asText_eq_ok_iff.1 (within_eq_ok.1 hoid)
        rw [Element.eq_ofContent_of_asOctets (not_not.1 htag) hoctets] at he
        obtain ⟨⟨flag, value⟩, hfields, h⟩ := bind_eq_ok.1 h
        cases h
        obtain ⟨values, hflag, hvalue⟩ := optionalFields_eq_ok_iff.1 hfields
        exact ⟨hne, rest, flag, values, he, hflag, rfl, hvalue⟩

theorem Control.recodes : Recodes .sequence Control.ofElement Control.toElement := by
  refine ⟨by decide, fun _ ↦ rfl, fun e c h ↦ ?_⟩
  obtain ⟨-, rest, flag, values, rfl, hflag, hcritical, hvalue⟩ := fields_of_ofElement h
  let flags := if c.critical then [Element.boolean true] else []
  let written := (c.value.map Element.octetString).toList
  have hflags : (Element.encodeAll flags).length + (Element.encodeAll values).length ≤
      (Element.encodeAll rest).length := by
    have hread := (Recodes.boolean.within "Control criticality").length_optionalField_le hflag
    have hdefault : (Element.encodeAll flags).length ≤
        (Element.encodeAll (flag.map Element.boolean).toList).length := by
      simp only [flags, hcritical]
      cases flag with
      | none => exact Nat.le_refl _
      | some v => cases v <;> simp [Element.encodeAll]
    omega
  have hvalues : (Element.encodeAll written).length ≤ (Element.encodeAll values).length :=
    (Recodes.octets .octetString (by decide) rfl).length_last_le hvalue
  have hcontent : (toElement c).content =
      (Element.text c.oid).encode ++ (Element.encodeAll flags ++ Element.encodeAll written) := by
    rw [← Element.encodeAll_append]
    rfl
  rw [hcontent, Element.content_sequence, Element.encodeAll]
  simp only [List.length_append]
  omega

theorem ExtendedRequest.fields_of_ofElement {e : Element} {r : ExtendedRequest}
    (h : ofElement e = .ok r) :
    r.oid ≠ "" ∧ ∃ rest, e = .ofChildren tag ((Element.text r.oid).context 0 :: rest) ∧
      optionalField valueTag Element.asOctets rest = .ok (r.value, []) := by
  obtain ⟨_, htag, h⟩ := bind_eq_ok.1 h
  obtain ⟨children, hchildren, h⟩ := bind_eq_ok.1 h
  obtain ⟨_, _, h⟩ := bind_eq_ok.1 h
  have he := Element.eq_ofChildren_of_asChildren (Element.tag_of_expectTag htag) hchildren
  cases children with
  | nil => cases h
  | cons first rest =>
    simp only at h
    split at h
    · cases h
    · rename_i htag
      obtain ⟨oid, hoid, h⟩ := bind_eq_ok.1 h
      split at h
      · cases h
      · rename_i hne
        have hoctets := Element.asText_eq_ok_iff.1 (within_eq_ok.1 hoid)
        rw [Element.eq_ofContent_of_asOctets (not_not.1 htag) hoctets] at he
        obtain ⟨⟨value, after⟩, hvalue, h⟩ := bind_eq_ok.1 h
        obtain ⟨_, hend, h⟩ := bind_eq_ok.1 h
        cases h
        cases noMoreFields_eq_ok hend
        exact ⟨hne, rest, he, hvalue⟩

theorem ExtendedRequest.recodes : Recodes tag ofElement toElement := by
  refine ⟨by decide, fun _ ↦ rfl, fun e r h ↦ ?_⟩
  obtain ⟨-, rest, rfl, hvalue⟩ := fields_of_ofElement h
  let written := (r.value.map fun v ↦ (Element.octetString v).context 1).toList
  have hvalues : (Element.encodeAll written).length ≤ (Element.encodeAll rest).length :=
    (Recodes.octets valueTag (by decide) rfl).length_last_le hvalue
  have hcontent : (toElement r).content =
      ((Element.text r.oid).context 0).encode ++ Element.encodeAll written := rfl
  rw [hcontent, Element.content_ofChildren, Element.encodeAll]
  simp only [List.length_append]
  omega

theorem IntermediateResponse.fields_of_ofElement {e : Element} {r : IntermediateResponse}
    (h : ofElement e = .ok r) :
    ∃ children values, e = .ofChildren tag children ∧
      optionalField nameTag (fun e ↦ within "Response name" e.asText) children =
        .ok (r.oid, values) ∧
      optionalField valueTag Element.asOctets values = .ok (r.value, []) := by
  obtain ⟨_, htag, h⟩ := bind_eq_ok.1 h
  obtain ⟨children, hchildren, h⟩ := bind_eq_ok.1 h
  obtain ⟨_, _, h⟩ := bind_eq_ok.1 h
  obtain ⟨⟨oid, value⟩, hfields, h⟩ := bind_eq_ok.1 h
  cases h
  obtain ⟨values, hname, hvalue⟩ := optionalFields_eq_ok_iff.1 hfields
  have he := Element.eq_ofChildren_of_asChildren (Element.tag_of_expectTag htag) hchildren
  exact ⟨children, values, he, hname, hvalue⟩

theorem IntermediateResponse.recodes : Recodes tag ofElement toElement := by
  refine ⟨by decide, fun _ ↦ rfl, fun e r h ↦ ?_⟩
  obtain ⟨children, values, rfl, hname, hvalue⟩ := fields_of_ofElement h
  let names := (r.oid.map fun o ↦ (Element.text o).context 0).toList
  let written := (r.value.map fun v ↦ (Element.octetString v).context 1).toList
  have hnames : (Element.encodeAll names).length + (Element.encodeAll values).length ≤
      (Element.encodeAll children).length :=
    ((Recodes.text nameTag (by decide) rfl).within "Response name").length_optionalField_le hname
  have hvalues : (Element.encodeAll written).length ≤ (Element.encodeAll values).length :=
    (Recodes.octets valueTag (by decide) rfl).length_last_le hvalue
  have hcontent : (toElement r).content = Element.encodeAll names ++ Element.encodeAll written := by
    rw [← Element.encodeAll_append]
    rfl
  rw [hcontent, Element.content_ofChildren, List.length_append]
  omega

namespace OperationResult

theorem eq_text_of_optionalText {e : Element} {what : String} {text : Option String}
    (h : optionalText e what = .ok text) : e = .text (text.getD "") ∧ text ≠ some "" := by
  unfold optionalText at h
  split at h
  · cases h
  · rename_i ht
    obtain ⟨s, hs, h⟩ := bind_eq_ok.1 h
    have hb := Element.asText_eq_ok_iff.1 (within_eq_ok.1 hs)
    have he : e = .text s := Element.eq_ofContent_of_asOctets (not_not.1 ht) hb
    cases h
    by_cases hn : s = ""
    · simp [he, hn]
    · simp [he, hn]

theorem fields_of_ofComponents {es rest : List Element} {r : OperationResult}
    (h : ofComponents es = .ok (r, rest)) :
    r.matchedDn ≠ some "" ∧ r.diagnostic ≠ some "" ∧
    ∃ code more urls,
      es = code :: .text (r.matchedDn.getD "") :: .text (r.diagnostic.getD "") :: more ∧
      code.asInteger = .ok r.code.value.toInt ∧
      optionalField referralTag ofComponents.readReferrals more = .ok (urls, rest) ∧
      r.referrals = urls.getD [] := by
  unfold ofComponents at h
  split at h
  · rename_i code matchedDn diagnostic more
    obtain ⟨v, hv, h⟩ := bind_eq_ok.1 h
    split at h
    · cases h
    · rename_i w hw
      obtain ⟨m, hm, h⟩ := bind_eq_ok.1 h
      obtain ⟨d, hd, h⟩ := bind_eq_ok.1 h
      obtain ⟨⟨urls, after⟩, hurls, h⟩ := bind_eq_ok.1 h
      cases h
      obtain ⟨rfl, hme⟩ := eq_text_of_optionalText hm
      obtain ⟨rfl, hde⟩ := eq_text_of_optionalText hd
      have hcode : code.asInteger = .ok w.toInt := by
        rw [Word.toInt_of_ofInt? hw]
        exact within_eq_ok.1 hv
      exact ⟨hme, hde, code, more, urls, rfl, hcode, hurls, rfl⟩
  · cases h

/-- A result takes no more octets than were read for it. -/
theorem length_toComponents_le {es rest : List Element} {r : OperationResult}
    (h : ofComponents es = .ok (r, rest)) :
    (Element.encodeAll r.toComponents).length + (Element.encodeAll rest).length ≤
      (Element.encodeAll es).length := by
  obtain ⟨-, -, code, more, urls, rfl, hcode, hurls, hreferrals⟩ := fields_of_ofComponents h
  let listed (referrals : List String) :=
    (Element.sequence (referrals.map Element.text)).context 3
  let written := if r.referrals = [] then [] else [listed r.referrals]
  have hcodes : (Element.enumerated r.code.value.toInt).encode.length ≤ code.encode.length :=
    Recodes.enumerated.length_encode_le hcode
  have htext : Recodes .octetString Element.asText Element.text :=
    Recodes.text .octetString (by decide) rfl
  have hwritten : (Element.encodeAll written).length + (Element.encodeAll rest).length ≤
      (Element.encodeAll more).length := by
    have hlist : Recodes referralTag ofComponents.readReferrals listed :=
      (htext.within "Referral URL").children (by decide) rfl
    have hread := hlist.length_optionalField_le hurls
    -- Of an empty list of referrals nothing is written.
    have hempty : (Element.encodeAll written).length ≤
        (Element.encodeAll (urls.map listed).toList).length := by
      simp only [written, hreferrals]
      cases urls with
      | none => exact Nat.le_refl _
      | some us => cases us <;> simp [Element.encodeAll]
    omega
  have hcomponents : r.toComponents = .enumerated r.code.value.toInt ::
      .text (r.matchedDn.getD "") :: .text (r.diagnostic.getD "") :: written := rfl
  simp only [hcomponents, Element.encodeAll, List.length_append]
  omega

end OperationResult

theorem ExtendedResult.fields_of_ofElement {e : Element} {r : ExtendedResult}
    (h : ofElement e = .ok r) :
    ∃ children fields values, e = .ofChildren tag children ∧
      OperationResult.ofComponents children = .ok (r.result, fields) ∧
      optionalField nameTag (fun e ↦ within "Response name" e.asText) fields =
        .ok (r.oid, values) ∧
      optionalField valueTag Element.asOctets values = .ok (r.value, []) := by
  obtain ⟨_, htag, h⟩ := bind_eq_ok.1 h
  obtain ⟨children, hchildren, h⟩ := bind_eq_ok.1 h
  obtain ⟨_, _, h⟩ := bind_eq_ok.1 h
  obtain ⟨⟨result, fields⟩, hresult, h⟩ := bind_eq_ok.1 h
  obtain ⟨⟨oid, value⟩, hfields, h⟩ := bind_eq_ok.1 h
  cases h
  obtain ⟨values, hname, hvalue⟩ := optionalFields_eq_ok_iff.1 hfields
  have he := Element.eq_ofChildren_of_asChildren (Element.tag_of_expectTag htag) hchildren
  exact ⟨children, fields, values, he, hresult, hname, hvalue⟩

theorem ExtendedResult.recodes : Recodes tag ofElement toElement := by
  refine ⟨by decide, fun _ ↦ rfl, fun e r h ↦ ?_⟩
  obtain ⟨children, fields, values, rfl, hresult, hname, hvalue⟩ := fields_of_ofElement h
  let names := (r.oid.map fun o ↦ (Element.text o).context 10).toList
  let written := (r.value.map fun v ↦ (Element.octetString v).context 11).toList
  have hresults := OperationResult.length_toComponents_le hresult
  have hnames : (Element.encodeAll names).length + (Element.encodeAll values).length ≤
      (Element.encodeAll fields).length :=
    ((Recodes.text nameTag (by decide) rfl).within "Response name").length_optionalField_le hname
  have hvalues : (Element.encodeAll written).length ≤ (Element.encodeAll values).length :=
    (Recodes.octets valueTag (by decide) rfl).length_last_le hvalue
  have hcontent : (toElement r).content = Element.encodeAll r.result.toComponents ++
      Element.encodeAll names ++ Element.encodeAll written := by
    rw [← Element.encodeAll_append, ← Element.encodeAll_append]
    rfl
  rw [hcontent, Element.content_of_asChildren (Element.asChildren_ofChildren tag children)]
  simp only [List.length_append]
  omega

theorem Control.settles : Envelope.Settles Control :=
  Envelope.settles_of_recodes (fun _ _ h ↦ (fields_of_ofElement h).1) recodes

theorem ExtendedRequest.settles : Envelope.Settles ExtendedRequest :=
  Envelope.settles_of_recodes (fun _ _ h ↦ (fields_of_ofElement h).1) recodes

theorem ExtendedResult.texts_of_ofElement {e : Element} {r : ExtendedResult}
    (h : ofElement e = .ok r) : r.result.matchedDn ≠ some "" ∧ r.result.diagnostic ≠ some "" := by
  obtain ⟨_, _, _, _, hresult, _⟩ := fields_of_ofElement h
  obtain ⟨hm, hd, _⟩ := OperationResult.fields_of_ofComponents hresult
  exact ⟨hm, hd⟩

theorem ExtendedResult.settles : Envelope.Settles ExtendedResult :=
  Envelope.settles_of_recodes (fun _ _ h ↦ texts_of_ofElement h) recodes

theorem IntermediateResponse.settles : Envelope.Settles IntermediateResponse :=
  Envelope.settles_of_recodes (fun _ _ _ ↦ trivial) recodes

namespace OperationResult

def nonempty (text : Option String) : Option String := if text = some "" then none else text

theorem nonempty_ne (text : Option String) : nonempty text ≠ some "" := by
  unfold nonempty
  split
  · simp
  · assumption

theorem getD_nonempty (text : Option String) : (nonempty text).getD "" = text.getD "" := by
  unfold nonempty
  split
  · rename_i h
    rw [h]
    rfl
  · rfl

def withoutEmptyTexts (r : OperationResult) : OperationResult :=
  { r with matchedDn := nonempty r.matchedDn, diagnostic := nonempty r.diagnostic }

theorem toComponents_withoutEmptyTexts (r : OperationResult) :
    r.withoutEmptyTexts.toComponents = r.toComponents := by
  rw [toComponents, toComponents, withoutEmptyTexts]
  simp only [getD_nonempty]

end OperationResult

namespace ExtendedResult

def withoutEmptyTexts (r : ExtendedResult) : ExtendedResult :=
  { r with result := r.result.withoutEmptyTexts }

theorem encode_withoutEmptyTexts (r : ExtendedResult) : encode r.withoutEmptyTexts = encode r := by
  apply congrArg Element.encode
  simp only [Envelope.toElement, toElement, withoutEmptyTexts,
    OperationResult.toComponents_withoutEmptyTexts]

theorem decode_encode_withoutEmptyTexts {r : ExtendedResult} (hl : (encode r).length < 2 ^ 32) :
    decode (encode r) = .ok r.withoutEmptyTexts := by
  have hs : Envelope.Lawful.Sound r.withoutEmptyTexts :=
    ⟨OperationResult.nonempty_ne _, OperationResult.nonempty_ne _⟩
  rw [← encode_withoutEmptyTexts] at hl ⊢
  exact Envelope.decode_encode hs hl

end ExtendedResult

theorem Control.oid_ne_of_build {oid : String} {critical : Bool} {value : Option Bytes}
    {c : Control} (h : build oid critical value = .ok c) : c.oid ≠ "" := by
  obtain ⟨hne, rfl⟩ := ite_error_eq_ok_iff.1 h
  exact hne

theorem ExtendedRequest.oid_ne_of_build {oid : String} {value : Option Bytes}
    {r : ExtendedRequest} (h : build oid value = .ok r) : r.oid ≠ "" := by
  obtain ⟨hne, rfl⟩ := ite_error_eq_ok_iff.1 h
  exact hne

/-- A list of controls is read under whatever tag a message has it. -/
theorem Control.ofListElement_retag {controls : List Control}
    (h : ∀ c ∈ controls, c.oid ≠ "") (cls : TagClass) (number : UInt32) :
    ofListElement ((listElement controls).retag cls number) = .ok controls := by
  have hchildren : ((listElement controls).retag cls number).asChildren =
      .ok (controls.map toElement) := rfl
  rw [ofListElement, hchildren, within_ok, ok_bind]
  exact mapM_map_eq_ok fun c hc ↦ ofElement_toElement (h c hc)

/-- What is written for an envelope that can be built is read as the same envelope, but for
texts of a result that are empty. All octets that are read as an envelope settle when they are
written again. A list of controls is read in order. -/
theorem envelope_codecs_agree :
    ((∀ c : Control, Control.build c.oid c.critical c.value = .ok c →
        (encode c).length < 2 ^ 32 → decode (encode c) = .ok c) ∧
      (∀ r : ExtendedRequest, ExtendedRequest.build r.oid r.value = .ok r →
        (encode r).length < 2 ^ 32 → decode (encode r) = .ok r) ∧
      (∀ r : ExtendedResult, (encode r).length < 2 ^ 32 →
        decode (encode r) = .ok r.withoutEmptyTexts) ∧
      (∀ r : IntermediateResponse, (encode r).length < 2 ^ 32 → decode (encode r) = .ok r)) ∧
    (Envelope.Settles Control ∧ Envelope.Settles ExtendedRequest ∧
      Envelope.Settles ExtendedResult ∧ Envelope.Settles IntermediateResponse) ∧
    (∀ controls : List Control,
      (∀ c ∈ controls, Control.build c.oid c.critical c.value = .ok c) →
      ∀ (cls : TagClass) (number : UInt32),
        Control.ofListElement ((Control.listElement controls).retag cls number) =
          .ok controls) := by
  refine ⟨⟨?_, ?_, ?_, ?_⟩, ⟨Control.settles, ExtendedRequest.settles, ExtendedResult.settles,
    IntermediateResponse.settles⟩, ?_⟩
  · intro c hb hl
    exact Envelope.decode_encode (Control.oid_ne_of_build hb) hl
  · intro r hb hl
    exact Envelope.decode_encode (ExtendedRequest.oid_ne_of_build hb) hl
  · intro r hl
    exact ExtendedResult.decode_encode_withoutEmptyTexts hl
  · intro r hl
    exact Envelope.decode_encode trivial hl
  · intro controls hb cls number
    apply Control.ofListElement_retag
    intro c hc
    exact Control.oid_ne_of_build (hb c hc)

/-- An empty value, an empty matched DN and an empty name, and octets with padded lengths, a
flag that is the default, a padded result code and no referrals in their list. -/
theorem envelope_codecs_agree_padded :
    let control : Control := ⟨"1", true, some []⟩
    let request : ExtendedRequest := ⟨"1", none⟩
    let result : ExtendedResult := ⟨⟨⟨-1⟩, some "", some "x", ["ldap:"]⟩, some "", none⟩
    let kept : ExtendedResult := ⟨⟨⟨-1⟩, none, some "x", ["ldap:"]⟩, some "", none⟩
    let response : IntermediateResponse := ⟨some "", none⟩
    let plain : Control := ⟨"1", false, none⟩
    let success : ExtendedResult := ⟨.success, none, none⟩
    let bare : IntermediateResponse := ⟨none, none⟩
    (decode (encode control) = .ok control ∧ decode (encode request) = .ok request ∧
      decode (encode result) = .ok kept ∧ decode (encode response) = .ok response) ∧
    (decode [0x30, 0x81, 6, 4, 1, 0x31, 1, 1, 0] = .ok plain ∧
      decode (encode plain) = .ok plain ∧ (encode plain).length ≤ 9) ∧
    (decode [0x77, 0x81, 3, 0x80, 1, 0x31] = .ok request ∧
      decode (encode request) = .ok request ∧ (encode request).length ≤ 6) ∧
    (decode [0x78, 10, 0x0A, 2, 0, 0, 4, 0, 4, 0, 0xA3, 0] = .ok success ∧
      decode (encode success) = .ok success ∧ (encode success).length ≤ 12) ∧
    (decode [0x79, 0x81, 0] = .ok bare ∧
      decode (encode bare) = .ok bare ∧ (encode bare).length ≤ 3) ∧
    Control.ofListElement ((Control.listElement [control, plain]).retag .contextSpecific 0) =
      .ok [control, plain] := by
  intro control request result kept response plain success bare
  obtain ⟨⟨hc, hq, hr, hi⟩, ⟨hcs, hqs, hrs, his⟩, hlist⟩ := envelope_codecs_agree
  have hcl : (encode control).length < 2 ^ 32 := by decide +kernel
  have hql : (encode request).length < 2 ^ 32 := by decide +kernel
  have hrl : (encode result).length < 2 ^ 32 := by decide +kernel
  have hil : (encode response).length < 2 ^ 32 := by decide +kernel
  have hcp : decode [0x30, 0x81, 6, 4, 1, 0x31, 1, 1, 0] = .ok plain := by decide +kernel
  have hqp : decode [0x77, 0x81, 3, 0x80, 1, 0x31] = .ok request := by decide +kernel
  have hrp : decode [0x78, 10, 0x0A, 2, 0, 0, 4, 0, 4, 0, 0xA3, 0] = .ok success := by
    decide +kernel
  have hip : decode [0x79, 0x81, 0] = .ok bare := by decide +kernel
  have hbuilt : ∀ c ∈ [control, plain], Control.build c.oid c.critical c.value = .ok c := by
    decide +kernel
  exact ⟨⟨hc control rfl hcl, hq request rfl hql, hr result hrl, hi response hil⟩,
    ⟨hcp, hcs _ plain hcp⟩, ⟨hqp, hqs _ request hqp⟩, ⟨hrp, hrs _ success hrp⟩,
    ⟨hip, his _ bare hip⟩, hlist _ hbuilt .contextSpecific 0⟩

end LdapCodec
