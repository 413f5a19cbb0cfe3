import LdapCodec.Extension.Transaction
import LdapCodec.Proofs.Encoded

namespace LdapCodec

open Ber

namespace Control

theorem ofListElement_listElement {controls : List Control} (h : ∀ c ∈ controls, c.oid ≠ "") :
    ofListElement (listElement controls) = .ok controls := by
  rw [ofListElement, listElement, Element.asChildren_sequence, within_ok, ok_bind]
  exact mapM_map_eq_ok fun c hc ↦ ofElement_toElement (h c hc)

theorem depth_listElement_le (controls : List Control) : (listElement controls).depth ≤ 3 := by
  have hc : Element.depthAll (controls.map toElement) ≤ 2 := by
    rw [Element.depthAll_le_iff, List.forall_mem_map]
    exact fun c _ ↦ Envelope.Lawful.depth_toElement_le c
  rw [listElement, Element.depth_sequence]
  omega

end Control

def negativeId (what : String) (id : Int32) : DecodeError :=
  .valueOutOfRange s!"{what} must not be negative, got {id.toInt}"

theorem nonNegative_id (what : String) (id : Int32) :
    nonNegative (.integer id.toInt) what =
      if id < 0 then .error (negativeId what id) else .ok id :=
  nonNegative_of_asOctets rfl what

namespace UpdateControls

/-- An update is read as it was written, unless its message identifier is negative. -/
theorem decode_encode {x : UpdateControls} (hx : x.controls.tag = .sequence) :
    decode (encode x) =
      if x.messageId < 0 then .error (negativeId "Update message ID" x.messageId) else .ok x := by
  obtain ⟨id, controls⟩ := x
  have hs : expectField (.sequence [.integer id.toInt, controls]) .sequence what = .ok () :=
    expectField_eq_ok rfl
  have hc : checkCount [.integer id.toInt, controls] 2 2 what = .ok () := rfl
  have hi : expectField (.integer id.toInt) .integer "Update message ID" = .ok () :=
    expectField_eq_ok rfl
  have hl : expectField controls .sequence "Update controls list" = .ok () := expectField_eq_ok hx
  simp only [encode, decode, hs, hc, hi, hl, Element.asChildren_sequence, nonNegative_id, ok_bind]
  split
  · rfl
  · rfl

end UpdateControls

namespace EndedTransaction

/-- The message identifiers of a result in the order in which they are read, each with what
a refusal calls it. -/
def messageIds (x : EndedTransaction) : List (String × Int32) :=
  (x.failedMessageId.map ("Failed message ID", ·)).toList ++
    x.updates.map fun u ↦ ("Update message ID", u.messageId)

def readBack (x : EndedTransaction) : Except DecodeError EndedTransaction :=
  match x.messageIds.find? (·.2 < 0) with
  | none => .ok x
  | some (what, id) => .error (negativeId what id)

def encodeFields (x : EndedTransaction) : List Element :=
  (x.failedMessageId.map fun id ↦ Element.integer id.toInt).toList ++
    (if x.updates = [] then [] else [.sequence (x.updates.map UpdateControls.encode)])

theorem encodeValue_eq (x : EndedTransaction) :
    encodeValue x =
      if encodeFields x = [] then none else some (Element.sequence (encodeFields x)).encode := rfl

variable {x : EndedTransaction} {updates : List UpdateControls} {next : Nat}

theorem readField_failed (x : EndedTransaction) (id : Int32) :
    readField x (.integer id.toInt) =
      if id < 0 then .error (negativeId "Failed message ID" id)
      else .ok (0, { x with failedMessageId := some id }) := by
  have ht : (Element.integer id.toInt).tag = .integer := rfl
  rw [readField, if_pos ht, nonNegative_id]
  split
  · rfl
  · rfl

theorem readField_updates (x : EndedTransaction) (es : List Element) :
    readField x (.sequence es) =
      (es.mapM UpdateControls.decode).map fun updates ↦ (1, { x with updates }) := by
  have ht : (Element.sequence es).tag ≠ .integer := show Tag.sequence ≠ .integer by decide
  have hs : (Element.sequence es).tag = .sequence := rfl
  rw [readField, if_neg ht, if_pos hs, Element.asChildren_sequence, ok_bind]
  rfl

theorem orderedFields_updates (updates : List UpdateControls) (hn : next ≤ 1)
    (hx : x.updates = []) :
    orderedFields name readField next x
        (if updates = [] then [] else [.sequence (updates.map UpdateControls.encode)]) =
      ((updates.map UpdateControls.encode).mapM UpdateControls.decode).map fun updates ↦
        { x with updates } := by
  by_cases he : updates = []
  · obtain ⟨failed, _⟩ := x
    rw [he, if_pos rfl]
    cases hx
    rfl
  · rw [if_neg he]
    have hr := readField_updates x (updates.map UpdateControls.encode)
    cases hm : (updates.map UpdateControls.encode).mapM UpdateControls.decode with
    | error e =>
      rw [hm] at hr
      rw [orderedFields, hr]
      rfl
    | ok read =>
      rw [hm] at hr
      rw [orderedFields_cons hr hn]
      rfl

theorem mapM_updates (hu : ∀ u ∈ updates, u.controls.tag = .sequence) :
    (updates.map UpdateControls.encode).mapM UpdateControls.decode =
      (updates.find? (·.messageId < 0)).elim (.ok updates)
        fun u ↦ .error (negativeId "Update message ID" u.messageId) := by
  refine mapM_map_eq_find? fun u h ↦ ?_
  simp only [UpdateControls.decode_encode (hu u h), decide_eq_true_eq]

theorem find?_updates (updates : List UpdateControls) :
    (updates.map fun u ↦ ("Update message ID", u.messageId)).find? (·.2 < 0) =
      (updates.find? (·.messageId < 0)).map fun u ↦ ("Update message ID", u.messageId) :=
  List.find?_map

theorem decode_encodeFields (hu : ∀ u ∈ x.updates, u.controls.tag = .sequence) :
    decode (encodeFields x) = x.readBack := by
  obtain ⟨failed, updates⟩ := x
  have hm := mapM_updates hu
  cases failed with
  | none =>
    have ho := orderedFields_updates (x := ⟨none, []⟩) updates (Nat.zero_le 1) rfl
    rw [readBack, messageIds, Option.map_none, Option.toList_none, List.nil_append,
      find?_updates]
    refine ho.trans ?_
    rw [hm]
    cases updates.find? (·.messageId < 0) with
    | none => rfl
    | some u => rfl
  | some id =>
    have ho := orderedFields_updates (x := ⟨some id, []⟩) updates (Nat.le_refl 1) rfl
    have hr := readField_failed ⟨none, []⟩ id
    rw [readBack, messageIds, Option.map_some, Option.toList_some, List.singleton_append,
      List.find?_cons, find?_updates]
    by_cases hn : id < 0
    · rw [if_pos hn] at hr
      simp only [hn, decide_true]
      rw [decode, encodeFields, Option.map_some, Option.toList_some, List.singleton_append,
        orderedFields, hr]
      rfl
    · rw [if_neg hn] at hr
      simp only [hn, decide_false]
      refine ((orderedFields_cons hr (Nat.le_refl 0)).trans ho).trans ?_
      rw [hm]
      cases updates.find? (·.messageId < 0) with
      | none => rfl
      | some u => rfl

theorem depth_encodeFields_le (hu : ∀ u ∈ x.updates, u.controls.depth ≤ 3) :
    Element.depthAll (encodeFields x) ≤ 5 := by
  obtain ⟨failed, updates⟩ := x
  have he : Element.depthAll (updates.map UpdateControls.encode) ≤ 4 := by
    rw [Element.depthAll_le_iff, List.forall_mem_map]
    intro u h
    have hd := hu u h
    simp only [UpdateControls.encode, Element.depth_sequence, Element.depthAll,
      Element.depth_integer]
    omega
  rw [encodeFields, Element.depthAll_append]
  have hf : Element.depthAll (failed.map fun id ↦ Element.integer id.toInt).toList = 0 := by
    cases failed <;> simp [Element.depthAll]
  rw [hf, Nat.zero_max]
  split
  · simp [Element.depthAll]
  · simp only [Element.depthAll, Element.depth_sequence]
    omega

theorem length_encodeFields_le (x : EndedTransaction) : (encodeFields x).length ≤ 2 := by
  obtain ⟨failed, updates⟩ := x
  rw [encodeFields]
  cases failed <;> split <;> simp

theorem decodeValue_encodeValue (ht : ∀ u ∈ x.updates, u.controls.tag = .sequence)
    (hd : ∀ u ∈ x.updates, u.controls.depth ≤ 3) (hf : Payload.Fits (encodeValue x)) :
    decodeValue (encodeValue x) = x.readBack := by
  have hdec := decode_encodeFields ht
  rw [encodeValue_eq] at hf ⊢
  by_cases he : encodeFields x = []
  · rw [he] at hdec
    rw [if_pos he]
    exact hdec
  · rw [if_neg he] at hf ⊢
    have hdepth : Element.depthAll (encodeFields x) ≤ 63 :=
      Nat.le_trans (depth_encodeFields_le hd) (by decide)
    have hfields := Payload.fields_sequence name hf.length_content_lt hdepth (Nat.zero_le _)
      (length_encodeFields_le x)
    rw [decodeValue, hfields, ok_bind, hdec]

theorem ofResult_sent {x : Typed OperationResult EndedTransaction} (hx : x.received = .nothing)
    (hs : Envelope.Lawful.Sound (toResult x))
    (ht : ∀ u ∈ x.payload.updates, u.controls.tag = .sequence)
    (hd : ∀ u ∈ x.payload.updates, u.controls.depth ≤ 3)
    (hl : (Envelope.encode (toResult x)).length < 2 ^ 32) :
    (Envelope.decode (Envelope.encode (toResult x)) >>= ofResult) =
      x.payload.readBack.map fun y ↦ ⟨x.header, y, .of (encodeValue x.payload)⟩ := by
  obtain ⟨header, payload, _⟩ := x
  cases hx
  have hv := decodeValue_encodeValue ht hd (Envelope.fits_value hl)
  rw [Envelope.decode_encode hs hl, ok_bind]
  simp only [ofResult, toResult, Received.orElse, Option.getD_none, hv]
  cases payload.readBack with
  | error e => rfl
  | ok y => rfl

theorem controls_sent {updates : List (Int32 × List Control)}
    (hc : ∀ u ∈ updates, ∀ c ∈ u.2, c.oid ≠ "") :
    (updates.map fun u ↦ UpdateControls.build u.1 u.2).map UpdateControls.list =
      updates.map fun u ↦ .ok u.2 := by
  rw [List.map_map]
  refine List.map_congr_left fun u hu ↦ ?_
  exact Control.ofListElement_listElement (hc u hu)

/-- A result that was built arrives as it was built, with the controls of its updates, if no
message identifier in it is negative. Nothing keeps a negative one from being built and
written, but it is refused where it is read. -/
theorem built_result_read_back (result : OperationResult) (failed : Option Int32)
    (updates : List (Int32 × List Control)) (hm : result.matchedDn ≠ some "")
    (hd : result.diagnostic ≠ some "") (hc : ∀ u ∈ updates, ∀ c ∈ u.2, c.oid ≠ "")
    (hl : (Envelope.encode (toResult (build result failed
      (updates.map fun u ↦ .build u.1 u.2)))).length < 2 ^ 32) :
    let x := build result failed (updates.map fun u ↦ .build u.1 u.2)
    let received := Envelope.decode (Envelope.encode (toResult x)) >>= ofResult
    ((∀ id ∈ x.payload.messageIds, 0 ≤ id.2) →
      received = .ok ⟨result, x.payload, .of (encodeValue x.payload)⟩) ∧
    (∀ what id, x.payload.messageIds.find? (·.2 < 0) = some (what, id) →
      received = .error (negativeId what id)) ∧
    x.payload.updates.map UpdateControls.list = updates.map fun u ↦ .ok u.2 := by
  intro x received
  have hlists : ∀ u ∈ x.payload.updates, ∃ cs, u.controls = Control.listElement cs := by
    refine List.forall_mem_map.2 fun u _ ↦ ⟨u.2, rfl⟩
  have ht : ∀ u ∈ x.payload.updates, u.controls.tag = .sequence := by
    intro u hu
    obtain ⟨cs, h⟩ := hlists u hu
    rw [h]
    rfl
  have hdepth : ∀ u ∈ x.payload.updates, u.controls.depth ≤ 3 := by
    intro u hu
    obtain ⟨cs, h⟩ := hlists u hu
    rw [h]
    exact Control.depth_listElement_le cs
  have hr := ofResult_sent (x := x) rfl ⟨hm, hd⟩ ht hdepth hl
  refine ⟨fun hids ↦ hr.trans ?_, fun what id hid ↦ hr.trans ?_, controls_sent hc⟩
  · have hnone : x.payload.messageIds.find? (·.2 < 0) = none := by
      simpa [Int32.not_lt] using hids
    rw [readBack, hnone]
    rfl
  · rw [readBack, hid]
    rfl

/-- Two updates, one of them without controls, beside a failure that is refused. -/
theorem built_result_read_back_negative :
    let controls : List Control := [⟨"1.2.3", true, some []⟩, ⟨"1.2.3", false, none⟩]
    let kept := build ⟨⟨80⟩, none, some "late", []⟩ none [.build 0 controls, .build 7 []]
    let refused := build .success (some (-1)) []
    (Envelope.decode (Envelope.encode (toResult kept)) >>= ofResult) =
      .ok ⟨kept.header, kept.payload, .of (encodeValue kept.payload)⟩ ∧
    kept.payload.updates.map UpdateControls.list = [.ok controls, .ok []] ∧
    (Envelope.decode (Envelope.encode (toResult refused)) >>= ofResult) =
      .error (.valueOutOfRange "Failed message ID must not be negative, got -1") := by
  intro controls kept refused
  have hk := built_result_read_back ⟨⟨80⟩, none, some "late", []⟩ none [(0, controls), (7, [])]
    (by decide) (by decide) (by decide) (by decide +kernel)
  have hr := built_result_read_back .success (some (-1)) [] (by decide) (by decide) (by decide)
    (by decide +kernel)
  exact ⟨hk.1 (by decide), hk.2.2, hr.2.1 _ _ rfl⟩

end EndedTransaction

end LdapCodec
