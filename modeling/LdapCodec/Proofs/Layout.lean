import LdapCodec.Proofs.Reencoding

namespace LdapCodec

open Ber

def FailsAs {α : Type} (kind : DecodeError.Kind) (x : Except DecodeError α) : Prop :=
  ∃ err, x = .error err ∧ err.kind = kind

namespace FailsAs

variable {α β : Type} {kind : DecodeError.Kind} {x : Except DecodeError α}

theorem of_error (err : DecodeError) : FailsAs err.kind (.error err : Except DecodeError α) :=
  ⟨err, rfl, rfl⟩

theorem bind (h : FailsAs kind x) (f : α → Except DecodeError β) : FailsAs kind (x >>= f) := by
  obtain ⟨err, rfl, hkind⟩ := h
  exact ⟨err, rfl, hkind⟩

theorem within (h : FailsAs kind x) (what : String) : FailsAs kind (within what x) := by
  obtain ⟨err, rfl, hkind⟩ := h
  exact ⟨err.within what, rfl, hkind⟩

theorem expectTag {e : Element} {tag : Tag} (h : e.tag ≠ tag) :
    FailsAs .unexpectedTag (e.expectTag tag) := ⟨_, if_neg h, rfl⟩

theorem checkCount {es : List Element} {min max : Nat} (h : es.length < min ∨ max < es.length)
    (what : String) : FailsAs .invalidElementCount (checkCount es min max what) := by
  refine ⟨_, if_neg ?_, rfl⟩
  omega

end FailsAs

namespace Envelope

/-- An element at a place where none with its tag may stand. What stands before it is well
formed: it can be continued, but not by this tag. -/
structure Misplaced {E : Type} (Follows : List Element → E → Prop) (before : List Element)
    (e : Element) : Prop where
  begins : ∃ after x, Follows (before ++ after) x
  wrong : ∀ next after x, next.tag = e.tag → ¬Follows (before ++ next :: after) x

/-- Envelopes are read exactly from the elements with a tag whose children follow a grammar,
which has from `min` to `max` children. A wrong tag, a wrong number of children and a child
at a wrong place are refused each with its own kind of error. -/
structure Reads {E : Type} (read : Element → Except DecodeError E) (tag : Tag) (min max : Nat)
    (Follows : List Element → E → Prop) : Prop where
  ok_iff : ∀ e x, read e = .ok x ↔ ∃ es, e = .ofChildren tag es ∧ Follows es x
  wrong_tag : ∀ e, e.tag ≠ tag → FailsAs .unexpectedTag (read e)
  wrong_count : ∀ es, es.length < min ∨ max < es.length →
    FailsAs .invalidElementCount (read (.ofChildren tag es))
  wrong_place : ∀ before e after, (before ++ e :: after).length ≤ max →
    Misplaced Follows before e →
    FailsAs .invalidElementType (read (.ofChildren tag (before ++ e :: after)))

end Envelope

open Envelope

namespace Control

def Follows (es : List Element) (c : Control) : Prop :=
  ∃ flag : Option UInt8, c.oid ≠ "" ∧
    es = .ofContent .octetString (Utf8.encode c.oid) ::
      ((flag.map fun b ↦ .ofContent .boolean [b]).toList ++
        (c.value.map (.ofContent .octetString)).toList) ∧
    c.critical = flag.any (· != 0)

variable {e first : Element} {es : List Element} {c : Control}

theorem reads_flag : ReadsWritten .boolean (fun e ↦ within "Control criticality" e.asBoolean)
    (fun b ↦ .ofContent .boolean [b]) (· != 0) := .boolean "Control criticality"

theorem reads_value : ReadsWritten .octetString Element.asOctets (.ofContent .octetString) id :=
  .octets rfl

theorem follows_cons_iff :
    Follows (first :: es) c ↔ c.oid ≠ "" ∧ first = .text c.oid ∧
      ∃ flag, optionalFields s!"control {c.oid}" .boolean
        (fun e ↦ within "Control criticality" e.asBoolean) .octetString Element.asOctets es =
          .ok (flag, c.value) ∧ c.critical = flag.getD false := by
  simp only [reads_flag.optionalFields_iff reads_value (by decide)]
  constructor
  · rintro ⟨flag, hoid, hes, hcritical⟩
    obtain ⟨rfl, rfl⟩ := List.cons.inj hes
    refine ⟨hoid, rfl, _, ⟨flag, c.value, rfl, rfl, by simp⟩, ?_⟩
    rw [hcritical]
    cases flag <;> rfl
  · rintro ⟨hoid, rfl, _, ⟨flag, value, rfl, rfl, hvalue⟩, hcritical⟩
    rw [Option.map_id_fun, id] at hvalue
    refine ⟨flag, hoid, by rw [hvalue]; rfl, ?_⟩
    rw [hcritical]
    cases flag <;> rfl

theorem length_le_of_follows (h : Follows (first :: es) c) : es.length ≤ 2 := by
  obtain ⟨flag, -, hes, -⟩ := h
  obtain ⟨-, rfl⟩ := List.cons.inj hes
  cases flag <;> cases c.value <;> simp

theorem ofElement_eq_ok_iff :
    ofElement e = .ok c ↔ ∃ es, e = .ofChildren .sequence es ∧ Follows es c := by
  constructor
  · intro h
    obtain ⟨hoid, rest, flag, values, rfl, hflag, hcritical, hvalue⟩ := fields_of_ofElement h
    exact ⟨_, rfl, follows_cons_iff.2
      ⟨hoid, rfl, flag, optionalFields_eq_ok_iff.2 ⟨values, hflag, hvalue⟩, hcritical⟩⟩
  · rintro ⟨es, rfl, h⟩
    cases es with
    | nil => obtain ⟨_, _, hes, _⟩ := h; cases hes
    | cons first es =>
      have hl := length_le_of_follows h
      obtain ⟨hoid, rfl, flag, hfields, hcritical⟩ := follows_cons_iff.1 h
      have he : ofElement (.ofChildren .sequence (.text c.oid :: es)) = _ :=
        ofElement_sequence hoid hl
      rw [he, hfields, ok_bind]
      simp only [← hcritical]

theorem fails_first (ht : first.tag ≠ .octetString) (hl : es.length ≤ 2) :
    FailsAs .invalidElementType (ofElement (.ofChildren .sequence (first :: es))) := by
  have he : (Element.ofChildren .sequence (first :: es)).asSequence = .ok (first :: es) := rfl
  have hcount : checkCount (first :: es) 1 3 "Control" = .ok () :=
    checkCount_eq_ok (by simp) (Nat.succ_le_succ hl)
  simp only [ofElement, he, within_ok, ok_bind, hcount, if_pos ht]
  exact .of_error _

theorem reads : Reads ofElement .sequence 1 3 Follows where
  ok_iff _ _ := ofElement_eq_ok_iff
  wrong_tag _ h := (((FailsAs.expectTag h).bind _).within "Control").bind _
  wrong_count es h := by
    have he : (Element.ofChildren .sequence es).asSequence = .ok es := rfl
    rw [ofElement, he, within_ok, ok_bind]
    exact (FailsAs.checkCount h "Control").bind _
  wrong_place before e after hl hm := by
    cases before with
    | nil =>
      have ht : e.tag ≠ .octetString := fun ht ↦
        hm.wrong (.text "1") [] ⟨"1", false, none⟩ ht.symm ⟨none, by decide, rfl, rfl⟩
      exact fails_first ht (Nat.le_of_succ_le_succ hl)
    | cons first before =>
      obtain ⟨more, c, hc⟩ := hm.begins
      obtain ⟨hoid, rfl, flag, hfields, hcritical⟩ := follows_cons_iff.1 hc
      obtain ⟨fields, hbefore⟩ := exists_optionalFields hfields
      have he : ofElement (.ofChildren .sequence (.text c.oid :: (before ++ e :: after))) = _ :=
        ofElement_sequence hoid (Nat.le_of_succ_le_succ hl)
      rw [List.cons_append, he,
        reads_flag.optionalFields_unexpected reads_value (by decide) 0 [] hbefore]
      · exact .of_error (unexpected e _)
      · intro next fields' ht hnext
        exact hm.wrong next [] ⟨c.oid, fields'.1.getD false, fields'.2⟩ ht
          (follows_cons_iff.2 ⟨hoid, rfl, _, hnext, rfl⟩)

end Control

namespace ExtendedRequest

def Follows (es : List Element) (r : ExtendedRequest) : Prop :=
  r.oid ≠ "" ∧
    es = .ofContent (.contextSpecific false 0) (Utf8.encode r.oid) ::
      (r.value.map (.ofContent (.contextSpecific false 1))).toList

variable {e first : Element} {es : List Element} {r : ExtendedRequest}

theorem reads_value : ReadsWritten valueTag Element.asOctets (.ofContent valueTag) id :=
  .octets rfl

theorem follows_cons_iff :
    Follows (first :: es) r ↔ r.oid ≠ "" ∧ first = (Element.text r.oid).context 0 ∧
      optionalField valueTag Element.asOctets es = .ok (r.value, []) := by
  rw [reads_value.optionalField_written_iff]
  exact and_congr_right fun _ ↦ List.cons_eq_cons

theorem length_le_of_follows (h : Follows (first :: es) r) : es.length ≤ 1 := by
  obtain ⟨-, rfl⟩ := List.cons.inj h.2
  cases r.value <;> simp

theorem ofElement_eq_ok_iff :
    ofElement e = .ok r ↔ ∃ es, e = .ofChildren tag es ∧ Follows es r := by
  constructor
  · intro h
    obtain ⟨hoid, rest, rfl, hvalue⟩ := fields_of_ofElement h
    exact ⟨_, rfl, follows_cons_iff.2 ⟨hoid, rfl, hvalue⟩⟩
  · rintro ⟨es, rfl, h⟩
    cases es with
    | nil => cases h.2
    | cons first es =>
      have hl := length_le_of_follows h
      obtain ⟨hoid, rfl, hvalue⟩ := follows_cons_iff.1 h
      rw [ofElement_ofChildren hoid hl, hvalue]
      rfl

theorem fails_first (ht : first.tag ≠ nameTag) (hl : es.length ≤ 1) :
    FailsAs .invalidElementType (ofElement (.ofChildren tag (first :: es))) := by
  have hexpect : (Element.ofChildren tag (first :: es)).expectTag tag = .ok () := rfl
  have hcount : checkCount (first :: es) 1 2 "Extended request" = .ok () :=
    checkCount_eq_ok (by simp) (Nat.succ_le_succ hl)
  simp only [ofElement, hexpect, Element.asChildren_ofChildren, ok_bind, hcount, if_pos ht]
  exact .of_error _

theorem reads : Reads ofElement tag 1 2 Follows where
  ok_iff _ _ := ofElement_eq_ok_iff
  wrong_tag _ h := (FailsAs.expectTag h).bind _
  wrong_count es h := by
    have hexpect : (Element.ofChildren tag es).expectTag tag = .ok () := rfl
    rw [ofElement, hexpect, ok_bind, Element.asChildren_ofChildren, ok_bind]
    exact (FailsAs.checkCount h "Extended request").bind _
  wrong_place before e after hl hm := by
    cases before with
    | nil =>
      have ht : e.tag ≠ nameTag := fun ht ↦
        hm.wrong ((Element.text "1").context 0) [] ⟨"1", none⟩ ht.symm ⟨by decide, rfl⟩
      exact fails_first ht (Nat.le_of_succ_le_succ hl)
    | cons first before =>
      -- Behind the identifier there is room for one child only.
      have hn : before.length + after.length = 0 := by
        simp only [List.length_append, List.length_cons] at hl
        omega
      obtain ⟨hb, ha⟩ := Nat.add_eq_zero_iff.1 hn
      obtain rfl := List.length_eq_zero_iff.1 hb
      obtain rfl := List.length_eq_zero_iff.1 ha
      obtain ⟨more, r, hr⟩ := hm.begins
      obtain ⟨hoid, rfl, -⟩ := follows_cons_iff.1 hr
      have ht : e.tag ≠ valueTag := fun ht ↦
        hm.wrong ((Element.octetString []).context 1) [] ⟨r.oid, some []⟩ ht.symm ⟨hoid, rfl⟩
      have hnone : optionalField valueTag Element.asOctets [e] = .ok (none, [e]) := if_neg ht
      rw [List.singleton_append, ofElement_ofChildren hoid (by simp), hnone]
      exact .of_error (unexpected e _)

end ExtendedRequest

namespace IntermediateResponse

def Follows (es : List Element) (r : IntermediateResponse) : Prop :=
  es = (r.oid.map fun o ↦ .ofContent (.contextSpecific false 0) (Utf8.encode o)).toList ++
    (r.value.map (.ofContent (.contextSpecific false 1))).toList

variable {e : Element} {es : List Element} {r : IntermediateResponse}

theorem reads_name : ReadsWritten nameTag (fun e ↦ within "Response name" e.asText)
    (fun o ↦ .ofContent nameTag (Utf8.encode o)) id := .text rfl "Response name"

theorem reads_value : ReadsWritten valueTag Element.asOctets (.ofContent valueTag) id :=
  .octets rfl

theorem follows_iff :
    Follows es r ↔ optionalFields "intermediate response" nameTag
      (fun e ↦ within "Response name" e.asText) valueTag Element.asOctets es =
        .ok (r.oid, r.value) :=
  (reads_name.optionalFields_written_iff reads_value (by decide)).symm

theorem length_le_of_follows (h : Follows es r) : es.length ≤ 2 := by
  rw [h]
  cases r.oid <;> cases r.value <;> simp

theorem ofElement_eq_ok_iff :
    ofElement e = .ok r ↔ ∃ es, e = .ofChildren tag es ∧ Follows es r := by
  constructor
  · intro h
    obtain ⟨es, values, rfl, hname, hvalue⟩ := fields_of_ofElement h
    exact ⟨es, rfl, follows_iff.2 (optionalFields_eq_ok_iff.2 ⟨values, hname, hvalue⟩)⟩
  · rintro ⟨es, rfl, h⟩
    rw [ofElement_ofChildren (length_le_of_follows h), follows_iff.1 h]
    rfl

theorem reads : Reads ofElement tag 0 2 Follows where
  ok_iff _ _ := ofElement_eq_ok_iff
  wrong_tag _ h := (FailsAs.expectTag h).bind _
  wrong_count es h := by
    have hexpect : (Element.ofChildren tag es).expectTag tag = .ok () := rfl
    rw [ofElement, hexpect, ok_bind, Element.asChildren_ofChildren, ok_bind]
    exact (FailsAs.checkCount h "Intermediate response").bind _
  wrong_place before e after hl hm := by
    obtain ⟨more, r, hr⟩ := hm.begins
    obtain ⟨fields, hbefore⟩ := exists_optionalFields (follows_iff.1 hr)
    rw [ofElement_ofChildren hl,
      reads_name.optionalFields_unexpected reads_value (by decide) "" [] hbefore]
    · exact .of_error (unexpected e _)
    · intro next fields' ht hnext
      exact hm.wrong next [] ⟨fields'.1, fields'.2⟩ ht (follows_iff.2 hnext)

end IntermediateResponse

/-- Controls, requests and intermediate responses are read exactly by their grammars. -/
theorem Envelope.reads_grammars :
    Reads Control.ofElement (.universal true 16) 1 3 Control.Follows ∧
    Reads ExtendedRequest.ofElement (.application true 23) 1 2 ExtendedRequest.Follows ∧
    Reads IntermediateResponse.ofElement (.application true 25) 0 2 IntermediateResponse.Follows :=
  ⟨Control.reads, ExtendedRequest.reads, IntermediateResponse.reads⟩

/-- A flag behind the value of a control, and a second value of a response. -/
theorem Envelope.reads_grammars_misplaced :
    let value : Element := .octetString []
    let field : Element := value.context 1
    Control.ofElement (.sequence [.text "1", .boolean true, value]) = .ok ⟨"1", true, some []⟩ ∧
    Misplaced Control.Follows [.text "1", value] (.boolean true) ∧
    FailsAs .invalidElementType
      (Control.ofElement (.sequence [.text "1", value, .boolean true])) ∧
    Misplaced IntermediateResponse.Follows [field] field ∧
    FailsAs .invalidElementType
      (IntermediateResponse.ofElement (.ofChildren (.application true 25) [field, field])) := by
  intro value field
  obtain ⟨hcontrol, -, hresponse⟩ := reads_grammars
  have hflag : Misplaced Control.Follows [.text "1", value] (.boolean true) := by
    refine ⟨⟨[], ⟨"1", false, some []⟩, none, by decide, rfl, rfl⟩, ?_⟩
    rintro next after x - ⟨flag, -, hes, -⟩
    cases flag with
    | none => cases hv : x.value <;> simp [hv] at hes
    | some b =>
      have ht : Tag.octetString = .boolean :=
        congrArg Element.tag (List.cons.inj (List.cons.inj hes).2).1
      exact absurd ht (by decide)
  have hfield : Misplaced IntermediateResponse.Follows [field] field := by
    refine ⟨⟨[], ⟨none, some []⟩, rfl⟩, ?_⟩
    rintro next after ⟨oid, v⟩ - hes
    cases oid with
    | none => cases v <;> simp [IntermediateResponse.Follows] at hes
    | some o =>
      have ht : IntermediateResponse.valueTag = IntermediateResponse.nameTag :=
        congrArg Element.tag (List.cons.inj hes).1
      exact absurd ht (by decide)
  refine ⟨?_, hflag, ?_, hfield, ?_⟩
  · exact (hcontrol.ok_iff _ _).2 ⟨_, rfl, some 0xFF, by decide, rfl, rfl⟩
  · exact hcontrol.wrong_place [.text "1", value] (.boolean true) [] (by decide) hflag
  · exact hresponse.wrong_place [field] field [] (by decide) hfield

end LdapCodec
