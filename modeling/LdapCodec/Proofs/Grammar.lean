import LdapCodec.Proofs.Reencoding

namespace LdapCodec

open Ber

namespace Ber.Element

def children : Element → List Element
  | primitive .. => []
  | constructed _ _ es => es

def Holds (Tags : Tag → Prop) (e : Element) (octets : Bytes) : Prop :=
  Tags e.tag ∧ e.asOctets = .ok octets

theorem asInteger_eq_ok_iff {e : Element} {w : Int32} :
    e.asInteger = .ok w.toInt ↔
      ∃ digits, e.asOctets = .ok digits ∧ digits ≠ [] ∧ Integer.value digits = w.toInt := by
  have hl := Int32.le_toInt w
  have hu := Int32.toInt_lt w
  rw [asInteger, bind_eq_ok]
  refine exists_congr fun digits ↦ and_congr_right fun _ ↦ ?_
  rw [Integer.decode_eq_ok_iff]
  refine and_congr_right fun _ ↦ and_iff_left ?_
  omega

end Ber.Element

def AnyTag (_ : Tag) : Prop := True

namespace OperationResult

/-- The elements of a result: the code, two texts, and perhaps addresses under the tag of
referrals. `Code` and `Url` are the tags that the code and an address may have. Empty texts
are absent ones. -/
inductive Follows (Code Url : Tag → Prop) : List Element → OperationResult → Prop
  | intro {code : Element} {digits : Bytes} {w : Int32} {matchedDn diagnostic : String}
      {referral : Option (List Element)} {urls : List String}
      (hcode : code.Holds Code digits) (hdigits : digits ≠ [])
      (hvalue : Integer.value digits = w.toInt)
      (hurls : List.Forall₂ (fun u s ↦ u.Holds Url (Utf8.encode s)) (referral.getD []) urls) :
      Follows Code Url
        ([code, .text matchedDn, .text diagnostic] ++
          (referral.map (Element.ofChildren referralTag)).toList)
        ⟨⟨w⟩, nonempty (some matchedDn), nonempty (some diagnostic), urls⟩

def Tagged (Code Url : Tag → Prop) (es : List Element) : Prop :=
  (∀ code ∈ es.head?, Code code.tag) ∧
    ∀ e ∈ es, e.tag = referralTag → ∀ u ∈ e.children, Url u.tag

variable {Code Url : Tag → Prop} {es rest : List Element} {r : OperationResult}
  {referral : Option (List Element)} {urls : List String}

theorem nonempty_getD {text : Option String} (h : text ≠ some "") :
    nonempty (some (text.getD "")) = text := by
  cases text with
  | none => rfl
  | some s => exact if_neg h

theorem optionalText_nonempty (s what : String) :
    optionalText (.text s) what = .ok (nonempty (some s)) := by
  have h := optionalText_text (nonempty_ne (some s)) what
  rwa [getD_nonempty] at h

theorem readReferrals_eq_ok_iff {e : Element} {urls : List String} :
    ofComponents.readReferrals e = .ok urls ↔
      ∃ us, e.asChildren = .ok us ∧
        List.Forall₂ (fun u s ↦ u.Holds AnyTag (Utf8.encode s)) us urls := by
  rw [ofComponents.readReferrals, bind_eq_ok]
  refine exists_congr fun us ↦ and_congr_right fun _ ↦ ?_
  simp only [mapM_eq_ok_iff, within_eq_ok, Element.asText_eq_ok_iff, Element.Holds, AnyTag,
    true_and]

theorem Follows.length_eq (h : Follows Code Url es r) : es.length = 3 ∨ es.length = 4 := by
  cases h with
  | @intro _ _ _ _ _ referral => cases referral <;> simp

theorem Follows.exists_urls (hurls : List.Forall₂
      (fun u s ↦ u.Holds Url (Utf8.encode s)) (referral.getD []) urls)
    (hr : referral = none → ∀ e ∈ rest.head?, e.tag ≠ referralTag) :
    ∃ o, optionalField referralTag ofComponents.readReferrals
      ((referral.map (Element.ofChildren referralTag)).toList ++ rest) = .ok (o, rest) ∧
      o.getD [] = urls := by
  cases referral with
  | none =>
    cases hurls
    exact ⟨none, optionalField_none (hr rfl), rfl⟩
  | some us =>
    have hread : ofComponents.readReferrals (.ofChildren referralTag us) = .ok urls :=
      readReferrals_eq_ok_iff.2 ⟨us, rfl, hurls.imp fun _ _ h ↦ ⟨trivial, h.2⟩⟩
    exact ⟨some urls, optionalField_cons rfl hread, rfl⟩

theorem Follows.of_fields {code : Element} {digits : Bytes} (hcode : code.Holds Code digits)
    (hdigits : digits ≠ []) (hvalue : Integer.value digits = r.code.value.toInt)
    (hm : r.matchedDn ≠ some "") (hd : r.diagnostic ≠ some "")
    (hurls : List.Forall₂ (fun u s ↦ u.Holds Url (Utf8.encode s)) (referral.getD [])
      r.referrals) :
    Follows Code Url
      ([code, .text (r.matchedDn.getD ""), .text (r.diagnostic.getD "")] ++
        (referral.map (Element.ofChildren referralTag)).toList) r := by
  obtain ⟨⟨w⟩, matchedDn, diagnostic, urls⟩ := r
  have h : Follows Code Url
      ([code, .text (matchedDn.getD ""), .text (diagnostic.getD "")] ++
        (referral.map (Element.ofChildren referralTag)).toList)
      ⟨⟨w⟩, nonempty (some (matchedDn.getD "")), nonempty (some (diagnostic.getD "")), urls⟩ :=
    .intro hcode hdigits hvalue hurls
  rwa [nonempty_getD hm, nonempty_getD hd] at h

/-- A reader looks at all tags but those of the code and of the addresses. -/
theorem ofComponents_eq_ok_iff :
    ofComponents es = .ok (r, rest) ↔
      ∃ cs, es = cs ++ rest ∧ Follows AnyTag AnyTag cs r ∧
        (cs.length = 3 → ∀ e ∈ rest.head?, e.tag ≠ referralTag) := by
  constructor
  · intro h
    obtain ⟨hm, hd, code, more, o, rfl, hcode, ho, hreferrals⟩ := fields_of_ofComponents h
    obtain ⟨digits, hdigits, hne, hvalue⟩ := Element.asInteger_eq_ok_iff.1 hcode
    have hcode : code.Holds AnyTag digits := ⟨trivial, hdigits⟩
    rcases optionalField_eq_ok_iff.1 ho with ⟨rfl, rfl, ht⟩ | ⟨e, urls, rfl, rfl, ht, hread⟩
    · have hurls : List.Forall₂ (fun u s ↦ u.Holds AnyTag (Utf8.encode s))
          ((none : Option (List Element)).getD []) r.referrals := by
        rw [hreferrals]
        exact .nil
      exact ⟨_, rfl, .of_fields hcode hne hvalue hm hd hurls, fun _ ↦ ht⟩
    · obtain ⟨us, hus, hurls⟩ := readReferrals_eq_ok_iff.1 hread
      obtain rfl := Element.eq_ofChildren_of_asChildren ht hus
      have hurls : List.Forall₂ (fun u s ↦ u.Holds AnyTag (Utf8.encode s))
          ((some us).getD []) r.referrals := by
        rwa [hreferrals]
      exact ⟨_, rfl, .of_fields hcode hne hvalue hm hd hurls, fun hl ↦ by simp at hl⟩
  · rintro ⟨cs, rfl, hf, hr⟩
    cases hf with
    | @intro code digits w matchedDn diagnostic referral urls hcode hdigits hvalue hurls =>
      have hc : code.asInteger = .ok w.toInt :=
        Element.asInteger_eq_ok_iff.2 ⟨digits, hcode.2, hdigits, hvalue⟩
      have habsent : referral = none → ∀ e ∈ rest.head?, e.tag ≠ referralTag := by
        rintro rfl
        exact hr rfl
      obtain ⟨o, ho, rfl⟩ := Follows.exists_urls hurls habsent
      simp only [List.cons_append, List.nil_append, ofComponents, hc, within_ok,
        Word.ofInt?_toInt, optionalText_nonempty, ho, ok_bind]

variable {code : Element} {digits : Bytes} {more : List Element}

theorem forall₂_holds_iff {us : List Element} :
    List.Forall₂ (fun u s ↦ u.Holds Url (Utf8.encode s)) us urls ↔
      (∀ u ∈ us, Url u.tag) ∧ List.Forall₂ (fun u s ↦ u.Holds AnyTag (Utf8.encode s)) us urls := by
  simp only [Element.Holds, AnyTag, true_and]
  exact List.forall₂_and_left us urls

/-- Of the elements of a response only the referrals have the tag of referrals. -/
theorem tagged_iff (hcode : code.asOctets = .ok digits) (matchedDn diagnostic : String)
    (hmore : ∀ e ∈ more, e.tag ≠ referralTag) :
    Tagged Code Url ([code, .text matchedDn, .text diagnostic] ++
        (referral.map (Element.ofChildren referralTag)).toList ++ more) ↔
      Code code.tag ∧ ∀ u ∈ referral.getD [], Url u.tag := by
  have hc : code.tag ≠ referralTag := fun ht ↦ by
    rw [Element.eq_ofContent_of_asOctets ht hcode] at ht
    cases ht
  have htext : Tag.octetString ≠ referralTag := by decide
  refine and_congr (by simp) ⟨fun h u hu ↦ ?_, fun h e he ht ↦ ?_⟩
  · cases referral with
    | none => cases hu
    | some us => exact h (.ofChildren referralTag us) (by simp) rfl u hu
  · simp only [List.mem_append, List.mem_cons, List.not_mem_nil, or_false] at he
    rcases he with ((rfl | rfl | rfl) | he) | he
    · exact absurd ht hc
    · exact absurd ht htext
    · exact absurd ht htext
    · cases referral with
      | none => cases he
      | some us =>
        cases List.mem_singleton.1 he
        exact h
    · exact absurd ht (hmore e he)

end OperationResult

namespace ExtendedResult

def fields (oid : Option String) (value : Option Bytes) : List Element :=
  (oid.map fun o ↦ .ofContent nameTag (Utf8.encode o)).toList ++
    (value.map (.ofContent valueTag)).toList

inductive Follows (Code Url : Tag → Prop) : Element → ExtendedResult → Prop
  | intro {cs : List Element} {result : OperationResult} (oid : Option String)
      (value : Option Bytes) (hresult : result.Follows Code Url cs) :
      Follows Code Url (.ofChildren tag (cs ++ fields oid value)) ⟨result, oid, value⟩

variable {Code Url : Tag → Prop} {e : Element} {r : ExtendedResult}

theorem tag_of_mem_fields {oid : Option String} {value : Option Bytes} (h : e ∈ fields oid value) :
    e.tag = nameTag ∨ e.tag = valueTag := by
  rcases List.mem_append.1 h with h | h
  · obtain ⟨o, -, rfl⟩ := Option.map_eq_some_iff.1 (Option.mem_toList.1 h)
    exact .inl rfl
  · obtain ⟨v, -, rfl⟩ := Option.map_eq_some_iff.1 (Option.mem_toList.1 h)
    exact .inr rfl

theorem fields_ne_referral (oid : Option String) (value : Option Bytes) :
    ∀ e ∈ fields oid value, e.tag ≠ OperationResult.referralTag := by
  intro e he ht
  rcases tag_of_mem_fields he with h | h
  · exact absurd (h.symm.trans ht) (by decide)
  · exact absurd (h.symm.trans ht) (by decide)

theorem length_fields_le (oid : Option String) (value : Option Bytes) :
    (fields oid value).length ≤ 2 := by
  cases oid <;> cases value <;> simp [fields]

theorem optionalFields_fields_iff {es : List Element} {oid : Option String} {value : Option Bytes} :
    optionalFields "extended result" nameTag (fun e ↦ within "Response name" e.asText) valueTag
      Element.asOctets es = .ok (oid, value) ↔ es = fields oid value :=
  (ReadsWritten.text rfl "Response name").optionalFields_written_iff (.octets rfl) (by decide)

theorem ofElement_eq_ok_iff : ofElement e = .ok r ↔ Follows AnyTag AnyTag e r := by
  constructor
  · intro h
    obtain ⟨children, rest, values, rfl, hresult, hname, hvalue⟩ := fields_of_ofElement h
    obtain ⟨cs, rfl, hfollows, -⟩ := OperationResult.ofComponents_eq_ok_iff.1 hresult
    rw [optionalFields_fields_iff.1 (optionalFields_eq_ok_iff.2 ⟨values, hname, hvalue⟩)]
    exact .intro r.oid r.value hfollows
  · rintro ⟨oid, value, hresult⟩
    rename_i cs result
    have hexpect : (Element.ofChildren tag (cs ++ fields oid value)).expectTag tag = .ok () := rfl
    have hcount : checkCount (cs ++ fields oid value) 3 6 "Extended result" = .ok () := by
      have hcs := hresult.length_eq
      have hfields := length_fields_le oid value
      have hlength : (cs ++ fields oid value).length = cs.length + (fields oid value).length :=
        List.length_append
      exact checkCount_eq_ok (by omega) (by omega)
    have hcomponents : OperationResult.ofComponents (cs ++ fields oid value) =
        .ok (result, fields oid value) :=
      OperationResult.ofComponents_eq_ok_iff.2 ⟨cs, rfl, hresult, fun _ e he ↦
        fields_ne_referral oid value e (List.mem_of_mem_head? he)⟩
    simp only [ofElement, hexpect, Element.asChildren_ofChildren, hcount, hcomponents,
      optionalFields_fields_iff.2 rfl, ok_bind]

theorem follows_iff_tagged :
    Follows Code Url e r ↔
      Follows AnyTag AnyTag e r ∧ OperationResult.Tagged Code Url e.children := by
  constructor
  · rintro ⟨oid, value, hresult⟩
    cases hresult with
    | @intro _ _ _ matchedDn diagnostic _ _ hcode hdigits hvalue hurls =>
      obtain ⟨htags, hurls⟩ := OperationResult.forall₂_holds_iff.1 hurls
      refine ⟨.intro oid value (.intro ⟨trivial, hcode.2⟩ hdigits hvalue hurls), ?_⟩
      exact (OperationResult.tagged_iff hcode.2 matchedDn diagnostic
        (fields_ne_referral oid value)).2 ⟨hcode.1, htags⟩
  · rintro ⟨⟨oid, value, hresult⟩, htagged⟩
    cases hresult with
    | @intro _ _ _ matchedDn diagnostic _ _ hcode hdigits hvalue hurls =>
      obtain ⟨hc, htags⟩ := (OperationResult.tagged_iff hcode.2 matchedDn diagnostic
        (fields_ne_referral oid value)).1 htagged
      have hurls := OperationResult.forall₂_holds_iff.2 ⟨htags, hurls⟩
      exact .intro oid value (.intro ⟨hc, hcode.2⟩ hdigits hvalue hurls)

/-- A response is read exactly if it follows the grammar, with any tag for the code and for
the addresses. So the grammar with its own tags is what is read of elements that have them
there. -/
theorem ofElement_iff_grammar (e : Element) (r : ExtendedResult) :
    (ofElement e = .ok r ↔ Follows AnyTag AnyTag e r) ∧
    (Follows (· = .enumerated) (· = .octetString) e r ↔
      ofElement e = .ok r ∧
        OperationResult.Tagged (· = .enumerated) (· = .octetString) e.children) := by
  refine ⟨ofElement_eq_ok_iff, ?_⟩
  rw [follows_iff_tagged, ofElement_eq_ok_iff]

/-- A code that is an INTEGER. -/
example : ofElement (.ofChildren tag [.integer 0, .text "", .text ""]) =
    .ok ⟨.success, none, none⟩ := by decide +kernel

end ExtendedResult

end LdapCodec
