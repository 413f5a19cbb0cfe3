import LdapCodec.Envelope.Control
import LdapCodec.Envelope.Intermediate
import LdapCodec.Envelope.Request
import LdapCodec.Envelope.Result
import LdapCodec.Proofs.Ber.Fields

namespace LdapCodec

open Ber
open Envelope (encode value?)

def Payload.Fits (value : Option Bytes) : Prop :=
  ∀ bytes, value = some bytes → bytes.length < 2 ^ 32

/-- Envelopes of a kind are read as they are written. `Sound` are the envelopes without
texts that are refused or dropped because they are empty. -/
class Envelope.Lawful (E : Type) {H : outParam Type} [Envelope E H] where
  Sound : E → Prop
  ofElement_toElement : ∀ e : E, Sound e → ofElement (toElement e) = .ok e
  depth_toElement_le : ∀ e : E, (toElement e).depth ≤ 2
  length_value_lt : ∀ (e : E) bytes, value? e = some bytes → bytes.length < (encode e).length

namespace Envelope

variable {E H : Type} [Envelope E H] [Envelope.Lawful E] {e : E}

theorem decode_encode_of_content (hs : Lawful.Sound e)
    (hc : (toElement e).content.length < 2 ^ 32) : decode (encode e) = .ok e := by
  have hd : (toElement e).depth ≤ Element.maxDepth :=
    Nat.le_trans (Lawful.depth_toElement_le e) (by decide)
  rw [decode, encode, Element.decode_encode hc, if_pos hd, ok_bind,
    Lawful.ofElement_toElement e hs]

theorem decode_encode (hs : Lawful.Sound e) (hl : (encode e).length < 2 ^ 32) :
    decode (encode e) = .ok e :=
  decode_encode_of_content hs (Nat.lt_trans (toElement e).length_content_lt hl)

theorem fits_value (hl : (encode e).length < 2 ^ 32) : Payload.Fits (value? e) :=
  fun bytes hb ↦ Nat.lt_trans (Lawful.length_value_lt e bytes hb) hl

end Envelope

namespace Control

theorem ofElement_sequence {oid : String} (h : oid ≠ "") {es : List Element}
    (hl : es.length ≤ 2) :
    ofElement (.sequence (.text oid :: es)) = (do
      let (critical, value) ← optionalFields s!"control {oid}"
        .boolean (fun e ↦ within "Control criticality" e.asBoolean)
        .octetString Element.asOctets es
      .ok ⟨oid, critical.getD false, value⟩) := by
  have hcount : checkCount (.text oid :: es) 1 3 "Control" = .ok () :=
    checkCount_eq_ok (by simp) (Nat.succ_le_succ hl)
  have htag : ¬(Element.text oid).tag ≠ .octetString := fun hn ↦ hn rfl
  simp only [ofElement, Element.asSequence_sequence, within_ok, hcount, if_neg htag,
    Element.asText_text, if_neg h, ok_bind]

theorem ofElement_toElement {c : Control} (h : c.oid ≠ "") : ofElement (toElement c) = .ok c := by
  obtain ⟨oid, critical, value⟩ := c
  let flags := if critical then [Element.boolean true] else []
  let values := (value.map Element.octetString).toList
  have he : toElement ⟨oid, critical, value⟩ = .sequence (.text oid :: (flags ++ values)) := rfl
  have hlength : (flags ++ values).length ≤ 2 := by
    cases critical <;> cases value <;> simp [flags, values]
  have hflag : ∃ flag, optionalField .boolean
      (fun e ↦ within "Control criticality" e.asBoolean) (flags ++ values) =
        .ok (flag, values) ∧ flag.getD false = critical := by
    cases critical with
    | false =>
      refine ⟨none, optionalField_none ?_, rfl⟩
      cases value with
      | none => simp [flags, values]
      | some bytes => simp [flags, values, Tag.octetString, Tag.boolean, Tag.universal]
    | true => exact ⟨some true, optionalField_cons rfl rfl, rfl⟩
  have hvalue : optionalField .octetString Element.asOctets values = .ok (value, []) :=
    optionalField_last fun _ _ ↦ ⟨rfl, rfl⟩
  obtain ⟨flag, hflag, rfl⟩ := hflag
  rw [he, ofElement_sequence h hlength, optionalFields_eq_ok_iff.2 ⟨values, hflag, hvalue⟩, ok_bind]

instance : Envelope.Lawful Control where
  Sound c := c.oid ≠ ""
  ofElement_toElement _ := ofElement_toElement
  depth_toElement_le c := by
    obtain ⟨oid, critical, value⟩ := c
    cases critical <;> cases value <;>
      simp [Envelope.toElement, toElement, Element.depthAll]
  length_value_lt c bytes h := by
    refine Element.length_lt_of_mem (.octetString bytes) ?_ rfl
    have hv : c.value = some bytes := h
    simp [hv]

end Control

namespace ExtendedRequest

theorem ofElement_ofChildren {oid : String} (h : oid ≠ "") {es : List Element}
    (hl : es.length ≤ 1) :
    ofElement (.ofChildren tag ((Element.text oid).context 0 :: es)) = (do
      let (value, rest) ← optionalField valueTag Element.asOctets es
      noMoreFields s!"extended request {oid}" rest
      .ok ⟨oid, value⟩) := by
  have hexpect : (Element.ofChildren tag ((Element.text oid).context 0 :: es)).expectTag tag =
      .ok () := rfl
  have hcount : checkCount ((Element.text oid).context 0 :: es) 1 2 "Extended request" = .ok () :=
    checkCount_eq_ok (by simp) (Nat.succ_le_succ hl)
  have htag : ¬((Element.text oid).context 0).tag ≠ nameTag := fun hn ↦ hn rfl
  simp only [ofElement, hexpect, Element.asChildren_ofChildren, hcount, if_neg htag,
    Element.asText_context, within_ok, if_neg h, ok_bind]

theorem ofElement_toElement {r : ExtendedRequest} (h : r.oid ≠ "") :
    ofElement (toElement r) = .ok r := by
  obtain ⟨oid, value⟩ := r
  let values := (value.map fun v ↦ (Element.octetString v).context 1).toList
  have he : toElement ⟨oid, value⟩ = .ofChildren tag ((Element.text oid).context 0 :: values) :=
    rfl
  have hlength : values.length ≤ 1 := by cases value <;> simp [values]
  have hvalue : optionalField valueTag Element.asOctets values = .ok (value, []) :=
    optionalField_last fun _ _ ↦ ⟨rfl, rfl⟩
  rw [he, ofElement_ofChildren h hlength, hvalue]
  rfl

instance : Envelope.Lawful ExtendedRequest where
  Sound r := r.oid ≠ ""
  ofElement_toElement _ := ofElement_toElement
  depth_toElement_le r := by
    obtain ⟨oid, value⟩ := r
    cases value <;> simp [Envelope.toElement, toElement, Element.depthAll]
  length_value_lt r bytes h := by
    refine Element.length_lt_of_mem ((Element.octetString bytes).context 1) ?_ rfl
    have hv : r.value = some bytes := h
    simp [hv]

end ExtendedRequest

namespace OperationResult

theorem optionalText_text {text : Option String} (h : text ≠ some "") (what : String) :
    optionalText (.text (text.getD "")) what = .ok text := by
  have ht : ¬(Element.text (text.getD "")).tag ≠ .octetString := fun hn ↦ hn rfl
  rw [optionalText, if_neg ht, Element.asText_text, within_ok, ok_bind]
  cases text with
  | none => rfl
  | some s => exact congrArg Except.ok (if_neg fun hs ↦ h (congrArg some hs))

/-- What follows a result is left over, unless it could be taken for referrals that the result
does not have. -/
theorem ofComponents_toComponents {r : OperationResult} (hm : r.matchedDn ≠ some "")
    (hd : r.diagnostic ≠ some "") {rest : List Element}
    (hr : r.referrals = [] → ∀ e ∈ rest.head?, e.tag ≠ referralTag) :
    ofComponents (r.toComponents ++ rest) = .ok (r, rest) := by
  obtain ⟨⟨code⟩, matchedDn, diagnostic, referrals⟩ := r
  let listed := (Element.sequence (referrals.map Element.text)).context 3
  let urls := if referrals = [] then [] else [listed]
  have he : toComponents ⟨⟨code⟩, matchedDn, diagnostic, referrals⟩ ++ rest =
      .enumerated code.toInt :: .text (matchedDn.getD "") :: .text (diagnostic.getD "") ::
        (urls ++ rest) := rfl
  have hread : ofComponents.readReferrals listed = .ok referrals := by
    rw [ofComponents.readReferrals, Element.asChildren_context, ok_bind]
    exact mapM_map_eq_ok fun _ _ ↦ by simp
  have hurls : ∃ o, optionalField referralTag ofComponents.readReferrals (urls ++ rest) =
      .ok (o, rest) ∧ o.getD [] = referrals := by
    by_cases hn : referrals = []
    · refine ⟨none, ?_, hn.symm⟩
      simp only [urls, if_pos hn, List.nil_append]
      exact optionalField_none (hr hn)
    · refine ⟨some referrals, ?_, rfl⟩
      simp only [urls, if_neg hn]
      exact optionalField_cons rfl hread
  obtain ⟨o, hurls, hreferrals⟩ := hurls
  simp only [he, ofComponents, Element.asInteger_enumerated, within_ok, Word.ofInt?_toInt,
    optionalText_text hm, optionalText_text hd, hurls, hreferrals, ok_bind]

theorem depth_toComponents_le (r : OperationResult) : Element.depthAll r.toComponents ≤ 1 := by
  rw [toComponents]
  split <;> simp [Element.depthAll]

end OperationResult

namespace ExtendedResult

theorem ofElement_toElement {r : ExtendedResult} (hm : r.result.matchedDn ≠ some "")
    (hd : r.result.diagnostic ≠ some "") : ofElement (toElement r) = .ok r := by
  obtain ⟨result, oid, value⟩ := r
  let names := (oid.map fun o ↦ (Element.text o).context 10).toList
  let values := (value.map fun v ↦ (Element.octetString v).context 11).toList
  let fields := result.toComponents ++ (names ++ values)
  have he : toElement ⟨result, oid, value⟩ = .ofChildren tag fields := by
    rw [toElement, List.append_assoc]
  have hexpect : (Element.ofChildren tag fields).expectTag tag = .ok () := rfl
  have hcount : checkCount fields 3 6 "Extended result" = .ok () := by
    have hc : result.toComponents.length = 3 ∨ result.toComponents.length = 4 := by
      rw [OperationResult.toComponents]
      split <;> simp
    have hn : names.length ≤ 1 := by cases oid <;> simp [names]
    have hv : values.length ≤ 1 := by cases value <;> simp [values]
    have hf : fields.length = result.toComponents.length + (names.length + values.length) := by
      simp [fields]
    exact checkCount_eq_ok (by omega) (by omega)
  have hresult : OperationResult.ofComponents fields = .ok (result, names ++ values) := by
    refine OperationResult.ofComponents_toComponents hm hd fun _ ↦ ?_
    cases oid <;> cases value <;> simp [names, values, OperationResult.referralTag]
  have hname : optionalField nameTag (fun e ↦ within "Response name" e.asText)
      (names ++ values) = .ok (oid, values) := by
    refine optionalField_toList (fun o _ ↦ ⟨rfl, by simp⟩) ?_
    cases value <;> simp [values, nameTag]
  have hvalue : optionalField valueTag Element.asOctets values = .ok (value, []) :=
    optionalField_last fun _ _ ↦ ⟨rfl, rfl⟩
  have hfields : optionalFields "extended result" nameTag
      (fun e ↦ within "Response name" e.asText) valueTag Element.asOctets (names ++ values) =
        .ok (oid, value) := optionalFields_eq_ok_iff.2 ⟨values, hname, hvalue⟩
  simp only [he, ofElement, hexpect, Element.asChildren_ofChildren, hcount, hresult, hfields,
    ok_bind]

instance : Envelope.Lawful ExtendedResult where
  Sound r := r.result.matchedDn ≠ some "" ∧ r.result.diagnostic ≠ some ""
  ofElement_toElement _ h := ofElement_toElement h.1 h.2
  depth_toElement_le r := by
    obtain ⟨result, oid, value⟩ := r
    have hr := result.depth_toComponents_le
    cases oid <;> cases value <;>
      simp [Envelope.toElement, toElement, Element.depthAll_append,
        Element.depthAll] <;> omega
  length_value_lt r bytes h := by
    refine Element.length_lt_of_mem ((Element.octetString bytes).context 11) ?_ rfl
    have hv : r.value = some bytes := h
    simp [hv]

end ExtendedResult

namespace IntermediateResponse

theorem ofElement_ofChildren {es : List Element} (hl : es.length ≤ 2) :
    ofElement (.ofChildren tag es) = (do
      let (oid, value) ← optionalFields "intermediate response"
        nameTag (fun e ↦ within "Response name" e.asText) valueTag Element.asOctets es
      .ok ⟨oid, value⟩) := by
  have hexpect : (Element.ofChildren tag es).expectTag tag = .ok () := rfl
  have hcount : checkCount es 0 2 "Intermediate response" = .ok () :=
    checkCount_eq_ok (Nat.zero_le _) hl
  rw [ofElement, hexpect, ok_bind, Element.asChildren_ofChildren, ok_bind, hcount, ok_bind]

theorem ofElement_toElement (r : IntermediateResponse) : ofElement (toElement r) = .ok r := by
  obtain ⟨oid, value⟩ := r
  let names := (oid.map fun o ↦ (Element.text o).context 0).toList
  let values := (value.map fun v ↦ (Element.octetString v).context 1).toList
  have he : toElement ⟨oid, value⟩ = .ofChildren tag (names ++ values) := rfl
  have hlength : (names ++ values).length ≤ 2 := by
    cases oid <;> cases value <;> simp [names, values]
  have hname : optionalField nameTag (fun e ↦ within "Response name" e.asText)
      (names ++ values) = .ok (oid, values) := by
    refine optionalField_toList (fun o _ ↦ ⟨rfl, by simp⟩) ?_
    cases value <;> simp [values, nameTag]
  have hvalue : optionalField valueTag Element.asOctets values = .ok (value, []) :=
    optionalField_last fun _ _ ↦ ⟨rfl, rfl⟩
  rw [he, ofElement_ofChildren hlength, optionalFields_eq_ok_iff.2 ⟨values, hname, hvalue⟩, ok_bind]

instance : Envelope.Lawful IntermediateResponse where
  Sound _ := True
  ofElement_toElement r _ := r.ofElement_toElement
  depth_toElement_le r := by
    obtain ⟨oid, value⟩ := r
    cases oid <;> cases value <;>
      simp [Envelope.toElement, toElement, Element.depthAll]
  length_value_lt r bytes h := by
    refine Element.length_lt_of_mem ((Element.octetString bytes).context 1) ?_ rfl
    have hv : r.value = some bytes := h
    simp [hv]

end IntermediateResponse

end LdapCodec
