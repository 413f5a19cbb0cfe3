import LdapCodec.Ber.Fields
import LdapCodec.Proofs.Ber.Integer
import LdapCodec.Proofs.Ber.RoundTrip

namespace LdapCodec.Ber

@[simp]
theorem Tag.contextSpecific_inj {c c' : Bool} {n n' : UInt32} :
    contextSpecific c n = contextSpecific c' n' ↔ c = c' ∧ n = n' := by
  simp [contextSpecific]

namespace Element

@[simp]
theorem tag_text (s : String) : (text s).tag = .octetString := rfl

@[simp]
theorem tag_octetString (bytes : Bytes) : (octetString bytes).tag = .octetString := rfl

@[simp]
theorem tag_boolean (v : Bool) : (boolean v).tag = .boolean := rfl

@[simp]
theorem tag_sequence (es : List Element) : (sequence es).tag = .sequence := rfl

@[simp]
theorem tag_context_text (number : UInt32) (s : String) :
    ((text s).context number).tag = .contextSpecific false number := rfl

@[simp]
theorem tag_context_octetString (number : UInt32) (bytes : Bytes) :
    ((octetString bytes).context number).tag = .contextSpecific false number := rfl

@[simp]
theorem tag_context_integer (number : UInt32) (v : Int) :
    ((integer v).context number).tag = .contextSpecific false number := rfl

@[simp]
theorem tag_context_enumerated (number : UInt32) (v : Int) :
    ((enumerated v).context number).tag = .contextSpecific false number := rfl

@[simp]
theorem tag_context_sequence (number : UInt32) (es : List Element) :
    ((sequence es).context number).tag = .contextSpecific true number := rfl

@[simp]
theorem asOctets_octetString (bytes : Bytes) : (octetString bytes).asOctets = .ok bytes := rfl

@[simp]
theorem asOctets_context (number : UInt32) (bytes : Bytes) :
    ((octetString bytes).context number).asOctets = .ok bytes := rfl

@[simp]
theorem asChildren_ofChildren (tag : Tag) (es : List Element) :
    (ofChildren tag es).asChildren = .ok es := rfl

@[simp]
theorem asChildren_sequence (es : List Element) : (sequence es).asChildren = .ok es := rfl

@[simp]
theorem asChildren_context (number : UInt32) (es : List Element) :
    ((sequence es).context number).asChildren = .ok es := rfl

@[simp]
theorem asSequence_sequence (es : List Element) : (sequence es).asSequence = .ok es := rfl

@[simp]
theorem asBoolean_boolean (v : Bool) : (boolean v).asBoolean = .ok v := by
  cases v with
  | false => rfl
  | true => rfl

theorem content_ofChildren (tag : Tag) (es : List Element) :
    (ofChildren tag es).content = encodeAll es := rfl

theorem content_sequence (es : List Element) : (sequence es).content = encodeAll es := rfl

theorem content_of_asOctets {e : Element} {bytes : Bytes} (h : e.asOctets = .ok bytes) :
    e.content = bytes := by
  cases e with
  | primitive cls number content => exact Except.ok.inj h
  | constructed cls number children => cases h

theorem content_of_asChildren {e : Element} {es : List Element} (h : e.asChildren = .ok es) :
    e.content = encodeAll es := by
  cases e with
  | primitive cls number content => cases h
  | constructed cls number children =>
    cases h
    rfl

theorem asText_of_asOctets {e : Element} {s : String} (h : e.asOctets = .ok (Utf8.encode s)) :
    e.asText = .ok s := by
  rw [asText, h, ok_bind, Utf8.decode_encode]

theorem asText_eq_ok_iff {e : Element} {s : String} :
    e.asText = .ok s ↔ e.asOctets = .ok (Utf8.encode s) := by
  refine ⟨fun h ↦ ?_, asText_of_asOctets⟩
  obtain ⟨bytes, hb, h⟩ := bind_eq_ok.1 h
  split at h
  · rename_i t ht
    cases h
    rw [hb, Utf8.encode_of_decode ht]
  · cases h

theorem content_of_asText {e : Element} {s : String} (h : e.asText = .ok s) :
    e.content = Utf8.encode s := content_of_asOctets (asText_eq_ok_iff.1 h)

theorem tag_of_expectTag {e : Element} {tag : Tag} (h : e.expectTag tag = .ok ()) :
    e.tag = tag := by
  unfold expectTag at h
  split at h
  · assumption
  · cases h

theorem eq_ofContent_of_asOctets {e : Element} {tag : Tag} {bytes : Bytes} (ht : e.tag = tag)
    (h : e.asOctets = .ok bytes) : e = .ofContent tag bytes := by
  cases e with
  | primitive cls number content =>
    cases ht
    cases h
    rfl
  | constructed cls number children => cases h

theorem eq_ofChildren_of_asChildren {e : Element} {tag : Tag} {es : List Element}
    (ht : e.tag = tag) (h : e.asChildren = .ok es) : e = .ofChildren tag es := by
  cases e with
  | primitive cls number content => cases h
  | constructed cls number children =>
    cases ht
    cases h
    rfl

@[simp]
theorem asText_text (s : String) : (text s).asText = .ok s := asText_of_asOctets rfl

@[simp]
theorem asText_context (number : UInt32) (s : String) :
    ((text s).context number).asText = .ok s := asText_of_asOctets rfl

theorem asInteger_of_asOctets {e : Element} {v : Int} (h : e.asOctets = .ok (Integer.octets v))
    (hl : -(2 ^ 63) ≤ v) (hu : v < 2 ^ 63) : e.asInteger = .ok v := by
  rw [asInteger, h, ok_bind, Integer.decode_octets hl hu]

theorem asInteger_of_asOctets_toInt {e : Element} {w : Int32}
    (h : e.asOctets = .ok (Integer.octets w.toInt)) : e.asInteger = .ok w.toInt := by
  have hl := Int32.le_toInt w
  have hu := Int32.toInt_lt w
  exact asInteger_of_asOctets h (by omega) (by omega)

@[simp]
theorem asInteger_context (number : UInt32) (w : Int32) :
    ((integer w.toInt).context number).asInteger = .ok w.toInt := asInteger_of_asOctets_toInt rfl

@[simp]
theorem asInteger_enumerated (w : Int32) : (enumerated w.toInt).asInteger = .ok w.toInt :=
  asInteger_of_asOctets_toInt rfl

end Element

@[simp]
theorem within_ok {α : Type} (what : String) (x : α) : within what (.ok x) = .ok x := rfl

theorem within_eq_ok {α : Type} {what : String} {x : Except DecodeError α} {a : α} :
    within what x = .ok a ↔ x = .ok a := mapError_eq_ok

theorem expectField_eq_ok {e : Element} {tag : Tag} {what : String} (h : e.tag = tag) :
    expectField e tag what = .ok () := if_pos h

theorem tag_of_expectField {e : Element} {tag : Tag} {what : String}
    (h : expectField e tag what = .ok ()) : e.tag = tag := by
  unfold expectField at h
  split at h
  · assumption
  · cases h

section

variable {what : String}

@[simp]
theorem textField_text (s : String) : textField (.text s) what = .ok s := by
  rw [textField, expectField_eq_ok (Element.tag_text s), ok_bind, Element.asText_text, within_ok]

theorem mapM_textField (texts : List String) :
    (texts.map Element.text).mapM (textField · what) = .ok texts :=
  mapM_map_eq_ok fun s _ ↦ textField_text s

theorem nonNegative_of_asOctets {e : Element} {w : Int32}
    (h : e.asOctets = .ok (Integer.octets w.toInt)) (what : String) :
    nonNegative e what =
      if w < 0 then .error (.valueOutOfRange s!"{what} must not be negative, got {w.toInt}")
      else .ok w := by
  have hi : e.asInt32 = .ok w := by
    rw [Element.asInt32, Element.asInteger_of_asOctets_toInt h, ok_bind, Word.ofInt?_toInt]
  rw [nonNegative, hi, within_ok, ok_bind]

theorem Element.asInt32_eq_ok {e : Element} {w : Int32} :
    e.asInt32 = .ok w ↔ e.asInteger = .ok w.toInt := by
  rw [asInt32, bind_eq_ok]
  constructor
  · rintro ⟨v, hv, h⟩
    split at h
    · rename_i w' hw
      cases h
      rw [hv, Word.toInt_of_ofInt? hw]
    · cases h
  · intro h
    exact ⟨w.toInt, h, by simp only [Word.ofInt?_toInt]⟩

theorem nonNegative_eq_ok_iff {e : Element} {w : Int32} :
    nonNegative e what = .ok w ↔ e.asInteger = .ok w.toInt ∧ 0 ≤ w := by
  rw [nonNegative, bind_eq_ok]
  simp only [within_eq_ok, Element.asInt32_eq_ok]
  constructor
  · rintro ⟨v, hv, h⟩
    obtain ⟨hn, rfl⟩ := ite_error_eq_ok_iff.1 h
    exact ⟨hv, Int32.not_lt.1 hn⟩
  · rintro ⟨hw, h0⟩
    exact ⟨w, hw, if_neg (Int32.not_lt.2 h0)⟩

end

section

variable {α : Type} {tag : Tag} {read : Element → Except DecodeError α} {rest : List Element}

theorem optionalField_cons {e : Element} {x : α} (ht : e.tag = tag) (hr : read e = .ok x) :
    optionalField tag read (e :: rest) = .ok (some x, rest) := by
  rw [optionalField, if_pos ht, hr, ok_bind]

theorem optionalField_none (h : ∀ e ∈ rest.head?, e.tag ≠ tag) :
    optionalField tag read rest = .ok (none, rest) := by
  cases rest with
  | nil => rfl
  | cons e es => exact if_neg (h e rfl)

theorem optionalField_eq_ok_iff {es : List Element} {o : Option α} :
    optionalField tag read es = .ok (o, rest) ↔
      (o = none ∧ rest = es ∧ ∀ e ∈ es.head?, e.tag ≠ tag) ∨
        ∃ e x, es = e :: rest ∧ o = some x ∧ e.tag = tag ∧ read e = .ok x := by
  constructor
  · intro h
    cases es with
    | nil =>
      cases h
      exact .inl ⟨rfl, rfl, by simp⟩
    | cons e es =>
      rw [optionalField] at h
      split at h
      · rename_i ht
        obtain ⟨x, hx, h⟩ := bind_eq_ok.1 h
        cases h
        exact .inr ⟨e, x, rfl, rfl, ht, hx⟩
      · rename_i ht
        cases h
        exact .inl ⟨rfl, rfl, by simpa using ht⟩
  · rintro (⟨rfl, rfl, ht⟩ | ⟨e, x, rfl, rfl, ht, hx⟩)
    · exact optionalField_none ht
    · exact optionalField_cons ht hx

theorem noMoreFields_eq_ok {what : String} {es : List Element} (h : noMoreFields what es = .ok ()) :
    es = [] := by
  cases es with
  | nil => rfl
  | cons e es => cases h

/-- A field that may be left out is read as it was written, if what follows it cannot be
taken for it. -/
theorem optionalField_toList {write : α → Element} {o : Option α}
    (hw : ∀ x ∈ o, (write x).tag = tag ∧ read (write x) = .ok x)
    (hr : ∀ e ∈ rest.head?, e.tag ≠ tag) :
    optionalField tag read ((o.map write).toList ++ rest) = .ok (o, rest) := by
  cases o with
  | none => exact optionalField_none hr
  | some x =>
    obtain ⟨ht, hx⟩ := hw x rfl
    exact optionalField_cons ht hx

theorem optionalField_last {write : α → Element} {o : Option α}
    (hw : ∀ x ∈ o, (write x).tag = tag ∧ read (write x) = .ok x) :
    optionalField tag read (o.map write).toList = .ok (o, []) := by
  have h : optionalField tag read ((o.map write).toList ++ []) = .ok (o, []) :=
    optionalField_toList hw (by simp)
  rwa [List.append_nil] at h

section

variable {β : Type} {what : String} {first last : Tag} {readFirst : Element → Except DecodeError α}
  {readLast : Element → Except DecodeError β} {es : List Element} {a : Option α} {b : Option β}

/-- An element that can be neither of the fields. -/
theorem takeField_eq_error {e : Element} (hf : e.tag = first → a = none → b ≠ none)
    (hl : e.tag = last → b ≠ none) :
    takeField what first readFirst last readLast (a, b) e = .error (unexpected e what) := by
  rw [takeField, if_neg, if_neg]
  · rintro ⟨ht, hb⟩
    exact hl ht (Option.isNone_iff_eq_none.1 hb)
  · rintro ⟨ht, ha, hb⟩
    exact hf ht (Option.isNone_iff_eq_none.1 ha) (Option.isNone_iff_eq_none.1 hb)

theorem foldlM_takeField_both (y : β) :
    es.foldlM (takeField what first readFirst last readLast) (a, some y) = (do
      noMoreFields what es
      .ok (a, some y)) := by
  cases es with
  | nil => rfl
  | cons e es =>
    rw [List.foldlM_cons, takeField_eq_error (by simp) (by simp)]
    rfl

theorem foldlM_takeField_last (h : a = none → ∀ e ∈ es.head?, e.tag ≠ first) :
    es.foldlM (takeField what first readFirst last readLast) (a, none) = (do
      let (b, rest) ← optionalField last readLast es
      noMoreFields what rest
      .ok (a, b)) := by
  cases es with
  | nil => rfl
  | cons e es =>
    have hf : ¬(e.tag = first ∧ a.isNone ∧ (none : Option β).isNone) :=
      fun ⟨ht, ha, _⟩ ↦ h (Option.isNone_iff_eq_none.1 ha) e rfl ht
    by_cases hl : e.tag = last
    · rw [List.foldlM_cons, takeField, if_neg hf, if_pos ⟨hl, rfl⟩, optionalField, if_pos hl]
      simp only [bind_assoc, ok_bind, foldlM_takeField_both]
    · rw [List.foldlM_cons, takeField_eq_error (fun ht ha ↦ absurd ht (h ha e rfl))
        (fun ht ↦ absurd ht hl), optionalField, if_neg hl]
      rfl

/-- To read the two fields in one pass is to read one after the other. -/
theorem optionalFields_eq :
    optionalFields what first readFirst last readLast es = (do
      let (a, rest) ← optionalField first readFirst es
      let (b, rest) ← optionalField last readLast rest
      noMoreFields what rest
      .ok (a, b)) := by
  cases es with
  | nil => rfl
  | cons e es =>
    by_cases hf : e.tag = first
    · rw [optionalFields, List.foldlM_cons, takeField, if_pos ⟨hf, rfl, rfl⟩, optionalField,
        if_pos hf]
      simp only [bind_assoc, ok_bind]
      refine bind_congr fun x ↦ ?_
      exact foldlM_takeField_last (by simp)
    · have hnone : optionalField first readFirst (e :: es) = .ok (none, e :: es) := if_neg hf
      rw [optionalFields, foldlM_takeField_last (by simpa using hf), hnone, ok_bind]

theorem optionalFields_eq_ok_iff :
    optionalFields what first readFirst last readLast es = .ok (a, b) ↔
      ∃ rest, optionalField first readFirst es = .ok (a, rest) ∧
        optionalField last readLast rest = .ok (b, []) := by
  rw [optionalFields_eq]
  constructor
  · intro h
    obtain ⟨⟨_, rest⟩, hf, h⟩ := bind_eq_ok.1 h
    obtain ⟨⟨_, after⟩, hl, h⟩ := bind_eq_ok.1 h
    obtain ⟨_, hend, h⟩ := bind_eq_ok.1 h
    cases h
    cases noMoreFields_eq_ok hend
    exact ⟨rest, hf, hl⟩
  · rintro ⟨rest, hf, hl⟩
    simp only [hf, hl, noMoreFields, ok_bind]

/-- Fields that stand in their places are read one after the other. -/
theorem optionalFields_optional {γ δ : Type} {write : γ → Element} {writeLast : δ → Element}
    {c : Option γ} {d : Option δ} (hf : ∀ x ∈ c, (write x).tag = first)
    (hl : ∀ y ∈ d, (writeLast y).tag = last) (hne : last ≠ first) :
    optionalFields what first readFirst last readLast
        ((c.map write).toList ++ (d.map writeLast).toList) = (do
      let a ← c.mapM (readFirst <| write ·)
      let b ← d.mapM (readLast <| writeLast ·)
      .ok (a, b)) := by
  have hlast : optionalField last readLast (d.map writeLast).toList =
      (d.mapM (readLast <| writeLast ·)).map (·, []) := by
    cases d with
    | none => rfl
    | some y =>
      rw [Option.map_some, Option.toList_some, optionalField, if_pos (hl y rfl), Option.mapM_some]
      cases readLast (writeLast y) <;> rfl
  have hfirst : optionalField first readFirst ((c.map write).toList ++ (d.map writeLast).toList) =
      (c.mapM (readFirst <| write ·)).map (·, (d.map writeLast).toList) := by
    cases c with
    | none =>
      refine optionalField_none fun e he ht ↦ ?_
      obtain ⟨y, hy, rfl⟩ := Option.map_eq_some_iff.1
        (Option.mem_toList.1 (List.mem_of_mem_head? he))
      exact hne ((hl y hy).symm.trans ht)
    | some x =>
      rw [Option.map_some, Option.toList_some, List.singleton_append, optionalField,
        if_pos (hf x rfl), Option.mapM_some]
      cases readFirst (write x) <;> rfl
  rw [optionalFields_eq, hfirst]
  cases c.mapM (readFirst <| write ·) with
  | error err => rfl
  | ok a =>
    simp only [Except.map, ok_bind, hlast]
    cases d.mapM (readLast <| writeLast ·) <;> rfl

variable {before after : List Element} {fields : Option α × Option β}

theorem optionalFields_append
    (h : optionalFields what first readFirst last readLast before = .ok fields) :
    optionalFields what first readFirst last readLast (before ++ after) =
      after.foldlM (takeField what first readFirst last readLast) fields := by
  rw [optionalFields, List.foldlM_append]
  exact congrArg (· >>= fun fields ↦ after.foldlM _ fields) h

theorem exists_optionalFields
    (h : optionalFields what first readFirst last readLast (before ++ after) = .ok fields) :
    ∃ fields, optionalFields what first readFirst last readLast before = .ok fields := by
  rw [optionalFields, List.foldlM_append] at h
  obtain ⟨fields, hbefore, -⟩ := bind_eq_ok.1 h
  exact ⟨fields, hbefore⟩

end

/-- A field is read from the elements that are written for it, and from no others. -/
def ReadsWritten {γ : Type} (tag : Tag) (read : Element → Except DecodeError α)
    (write : γ → Element) (value : γ → α) : Prop :=
  ∀ e x, e.tag = tag ∧ read e = .ok x ↔ ∃ c, e = write c ∧ value c = x

namespace ReadsWritten

theorem octets {tag : Tag} (hp : tag.constructed = false) :
    ReadsWritten tag Element.asOctets (.ofContent tag) id := by
  refine fun e bytes ↦ ⟨fun ⟨ht, hb⟩ ↦ ⟨bytes, Element.eq_ofContent_of_asOctets ht hb, rfl⟩, ?_⟩
  rintro ⟨_, rfl, rfl⟩
  exact ⟨by rw [Element.ofContent, Element.tag, ← hp], rfl⟩

theorem text {tag : Tag} (hp : tag.constructed = false) (what : String) :
    ReadsWritten tag (fun e ↦ within what e.asText) (fun s ↦ .ofContent tag (Utf8.encode s))
      id := by
  intro e s
  rw [within_eq_ok, Element.asText_eq_ok_iff, octets hp e (Utf8.encode s)]
  simp

theorem boolean (what : String) :
    ReadsWritten .boolean (fun e ↦ within what e.asBoolean)
      (fun b ↦ .ofContent .boolean [b]) (· != 0) := by
  intro e v
  rw [within_eq_ok]
  constructor
  · rintro ⟨ht, h⟩
    obtain ⟨bytes, hb, h⟩ := bind_eq_ok.1 h
    split at h
    · rename_i b
      exact ⟨b, Element.eq_ofContent_of_asOctets ht hb, Except.ok.inj h⟩
    · cases h
  · rintro ⟨b, rfl, rfl⟩
    exact ⟨rfl, rfl⟩

variable {γ δ β : Type} {write : γ → Element} {value : γ → α} {es : List Element}

theorem optionalField_iff (h : ReadsWritten tag read write value) {o : Option α} :
    optionalField tag read es = .ok (o, rest) ↔ ∃ c, es = (c.map write).toList ++ rest ∧
      o = c.map value ∧ (c = none → ∀ e ∈ rest.head?, e.tag ≠ tag) := by
  rw [optionalField_eq_ok_iff]
  constructor
  · rintro (⟨rfl, rfl, ht⟩ | ⟨e, x, rfl, rfl, ht, hx⟩)
    · exact ⟨none, rfl, rfl, fun _ ↦ ht⟩
    · obtain ⟨c, rfl, rfl⟩ := (h e x).1 ⟨ht, hx⟩
      exact ⟨some c, rfl, rfl, nofun⟩
  · rintro ⟨c, rfl, rfl, ht⟩
    cases c with
    | none => exact .inl ⟨rfl, rfl, ht rfl⟩
    | some c =>
      obtain ⟨ht, hx⟩ := (h (write c) (value c)).2 ⟨c, rfl, rfl⟩
      exact .inr ⟨write c, value c, rfl, rfl, ht, hx⟩

theorem optionalField_written_iff {write : α → Element} (h : ReadsWritten tag read write id)
    {o : Option α} : optionalField tag read es = .ok (o, []) ↔ es = (o.map write).toList := by
  rw [h.optionalField_iff]
  simp

theorem optionalFields_iff {what : String} {last : Tag} {readLast : Element → Except DecodeError β}
    {writeLast : δ → Element} {valueLast : δ → β} (hf : ReadsWritten tag read write value)
    (hl : ReadsWritten last readLast writeLast valueLast) (hne : last ≠ tag) {a : Option α}
    {b : Option β} :
    optionalFields what tag read last readLast es = .ok (a, b) ↔
      ∃ (c : Option γ) (d : Option δ), es = (c.map write).toList ++ (d.map writeLast).toList ∧
        a = c.map value ∧ b = d.map valueLast := by
  simp only [optionalFields_eq_ok_iff, hf.optionalField_iff, hl.optionalField_iff]
  constructor
  · rintro ⟨rest, ⟨c, rfl, ha, -⟩, d, rfl, hb, -⟩
    exact ⟨c, d, by rw [List.append_nil], ha, hb⟩
  · rintro ⟨c, d, rfl, ha, hb⟩
    refine ⟨_, ⟨c, rfl, ha, fun _ e he ↦ ?_⟩, d, (List.append_nil _).symm, hb, by simp⟩
    obtain ⟨y, -, rfl⟩ := Option.map_eq_some_iff.1 (Option.mem_toList.1 (List.mem_of_mem_head? he))
    exact fun ht ↦ hne (((hl _ _).2 ⟨y, rfl, rfl⟩).1.symm.trans ht)

theorem optionalFields_written_iff {what : String} {last : Tag} {write : α → Element}
    {readLast : Element → Except DecodeError β} {writeLast : β → Element}
    (hf : ReadsWritten tag read write id) (hl : ReadsWritten last readLast writeLast id)
    (hne : last ≠ tag) {a : Option α} {b : Option β} :
    optionalFields what tag read last readLast es = .ok (a, b) ↔
      es = (a.map write).toList ++ (b.map writeLast).toList := by
  rw [hf.optionalFields_iff hl hne]
  simp

/-- An element is unexpected behind others if no element with its tag could stand there. -/
theorem optionalFields_unexpected {what : String} {last : Tag}
    {readLast : Element → Except DecodeError β} {writeLast : δ → Element} {valueLast : δ → β}
    (hf : ReadsWritten tag read write value)
    (hl : ReadsWritten last readLast writeLast valueLast) (hne : last ≠ tag) (c : γ) (d : δ)
    {before : List Element} {fields : Option α × Option β} {e : Element}
    (h : optionalFields what tag read last readLast before = .ok fields)
    (hwrong : ∀ next fields, next.tag = e.tag →
      optionalFields what tag read last readLast (before ++ [next]) ≠ .ok fields)
    (after : List Element) :
    optionalFields what tag read last readLast (before ++ e :: after) =
      .error (unexpected e what) := by
  have hnext : ∀ next fields', next.tag = e.tag →
      takeField what tag read last readLast fields next ≠ .ok fields' := by
    intro next fields' ht htake
    refine hwrong next fields' ht ?_
    rw [optionalFields_append h, List.foldlM_cons, htake]
    rfl
  obtain ⟨hft, hfx⟩ := (hf (write c) (value c)).2 ⟨c, rfl, rfl⟩
  obtain ⟨hlt, hlx⟩ := (hl (writeLast d) (valueLast d)).2 ⟨d, rfl, rfl⟩
  obtain ⟨a, b⟩ := fields
  rw [optionalFields_append h, List.foldlM_cons, takeField_eq_error]
  · rfl
  · rintro ht rfl rfl
    refine hnext (write c) (some (value c), none) (hft.trans ht.symm) ?_
    rw [takeField, if_pos ⟨hft, rfl, rfl⟩, hfx, ok_bind]
  · rintro ht rfl
    refine hnext (writeLast d) (a, some (valueLast d)) (hlt.trans ht.symm) ?_
    rw [takeField, if_neg fun hn ↦ hne (hlt.symm.trans hn.1), if_pos ⟨hlt, rfl⟩, hlx, ok_bind]

end ReadsWritten

theorem orderedFields_cons {what : String} {read : α → Element → Except DecodeError (Nat × α)}
    {next place : Nat} {x y : α} {e : Element} (hr : read x e = .ok (place, y))
    (hn : next ≤ place) :
    orderedFields what read next x (e :: rest) = orderedFields what read (place + 1) y rest := by
  rw [orderedFields, hr, ok_bind]
  exact if_neg (Nat.not_lt.2 hn)

end

/-- A field that may be left out is read at its place, which leaves later places to those
behind it. -/
theorem orderedFields_optional {α β : Type} (what : String)
    {read : α → Element → Except DecodeError (Nat × α)} {value : β → Except DecodeError α}
    {write : β → Element} {next place : Nat} {x : α} {o : Option β}
    (hr : ∀ v ∈ o, read x (write v) = (value v).map (place, ·)) (hn : next ≤ place)
    (rest : List Element) :
    ∃ later ≤ place + 1, orderedFields what read next x ((o.map write).toList ++ rest) =
      o.elim (.ok x) value >>= (orderedFields what read later · rest) := by
  cases o with
  | none => exact ⟨next, Nat.le_succ_of_le hn, rfl⟩
  | some v =>
    refine ⟨place + 1, Nat.le_refl _, ?_⟩
    rw [Option.map_some, Option.toList_some, List.singleton_append, Option.elim_some]
    cases hv : value v with
    | error err =>
      rw [orderedFields, hr v rfl, hv]
      rfl
    | ok y =>
      have hy : read x (write v) = .ok (place, y) := by
        rw [hr v rfl, hv]
        rfl
      rw [orderedFields_cons hy hn, ok_bind]

theorem checkCount_eq_ok {es : List Element} {min max : Nat} {what : String}
    (hmin : min ≤ es.length) (hmax : es.length ≤ max) : checkCount es min max what = .ok () :=
  if_pos ⟨hmin, hmax⟩

theorem length_of_checkCount {es : List Element} {min max : Nat} {what : String}
    (h : checkCount es min max what = .ok ()) : min ≤ es.length ∧ es.length ≤ max := by
  unfold checkCount at h
  split at h
  · assumption
  · cases h

namespace Element

@[simp]
theorem depth_ofChildren (tag : Tag) (es : List Element) :
    (ofChildren tag es).depth = 1 + depthAll es := by
  rw [ofChildren, depth]

@[simp]
theorem depth_sequence (es : List Element) : (sequence es).depth = 1 + depthAll es :=
  depth_ofChildren .sequence es

@[simp]
theorem depth_context (number : UInt32) (e : Element) : (e.context number).depth = e.depth := by
  cases e with
  | primitive cls n content => rw [context, retag, depth, depth]
  | constructed cls n children => rw [context, retag, depth, depth]

theorem depth_ofContent (tag : Tag) (content : Bytes) : (ofContent tag content).depth = 0 := by
  rw [ofContent, depth]

@[simp]
theorem depth_text (s : String) : (text s).depth = 0 := depth_ofContent _ _

@[simp]
theorem depth_octetString (bytes : Bytes) : (octetString bytes).depth = 0 := depth_ofContent _ _

@[simp]
theorem depth_boolean (v : Bool) : (boolean v).depth = 0 := depth_ofContent _ _

@[simp]
theorem depth_integer (v : Int) : (integer v).depth = 0 := depth_ofContent _ _

@[simp]
theorem depth_enumerated (v : Int) : (enumerated v).depth = 0 := depth_ofContent _ _

theorem depthAll_le_iff {es : List Element} {k : Nat} :
    depthAll es ≤ k ↔ ∀ e ∈ es, e.depth ≤ k := by
  induction es with
  | nil => simp [depthAll]
  | cons e es ih => rw [depthAll, Nat.max_le, ih, List.forall_mem_cons]

theorem depthAll_append (es fs : List Element) :
    depthAll (es ++ fs) = max (depthAll es) (depthAll fs) := by
  induction es with
  | nil => rw [List.nil_append, depthAll, Nat.zero_max]
  | cons e es ih => rw [List.cons_append, depthAll, depthAll, ih, Nat.max_assoc]

@[simp]
theorem depthAll_texts (texts : List String) : depthAll (texts.map text) = 0 := by
  rw [← Nat.le_zero, depthAll_le_iff]
  simp

theorem length_encode_lt {cls : TagClass} {number : UInt32} {e : Element} {es : List Element}
    (h : e ∈ es) : e.encode.length < (constructed cls number es).encode.length :=
  Nat.lt_of_le_of_lt (length_encode_le h) (length_content_lt (constructed cls number es))

/-- The octets of a field are fewer than those of the element around it. -/
theorem length_lt_of_mem {tag : Tag} (field : Element) {es : List Element} {bytes : Bytes}
    (hf : field ∈ es) (hb : field.asOctets = .ok bytes) :
    bytes.length < (ofChildren tag es).encode.length := by
  rw [← content_of_asOctets hb]
  exact Nat.lt_trans field.length_content_lt (length_encode_lt hf)

end Element

end LdapCodec.Ber
