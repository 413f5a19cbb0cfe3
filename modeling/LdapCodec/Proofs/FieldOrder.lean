import LdapCodec.Proofs.Ber.Order
import LdapCodec.Proofs.Decoded
import LdapCodec.Proofs.Transaction

namespace LdapCodec

open Ber

/-- The fields that a value may have are read in one order, each at most once. Elements that can
each be read alone, but not together, are refused for their order. -/
structure Payload.ReadsInOrder {H α : Type} (read : Bytes → Except DecodeError (Typed H α))
    (header : H) (name : String) (max : Nat) (decode : List Element → Except DecodeError α)
    (Follows : List Element → α → Prop) : Prop where
  ok_iff : ∀ es x, (checkCount es 0 max name >>= fun _ ↦ decode es) = .ok x ↔ Follows es x
  misplaced : ∀ es, es.length ≤ max → (∀ e ∈ es, ∃ x, Follows [e] x) → (∀ x, ¬Follows es x) →
    FailsAs .invalidElementType (checkCount es 0 max name >>= fun _ ↦ decode es)
  value : ∀ bytes es, Element.decode bytes = .ok (.sequence es) →
    read bytes =
      (checkCount es 0 max name >>= fun _ ↦ decode es).map (⟨header, ·, .of (some bytes)⟩)
  sequence : ∀ bytes x, read bytes = .ok x → ∃ es, Element.decode bytes = .ok (.sequence es)

/-- It is enough to look at the elements, whose number the order keeps within the limit. -/
theorem Payload.ReadsInOrder.of_fields {H α : Type}
    {read : Bytes → Except DecodeError (Typed H α)} {header : H} {name : String} {max : Nat}
    {decode : List Element → Except DecodeError α} {Follows : List Element → α → Prop}
    (hread : ∀ bytes, read bytes = (fields (some bytes) name 0 max >>= decode).map
      (⟨header, ·, .of (some bytes)⟩))
    (hok : ∀ es x, decode es = .ok x ↔ Follows es x)
    (hlength : ∀ es x, Follows es x → es.length ≤ max)
    (hmisplaced : ∀ es, (∀ e ∈ es, ∃ x, Follows [e] x) → (∀ x, decode es ≠ .ok x) →
      FailsAs .invalidElementType (decode es)) :
    ReadsInOrder read header name max decode Follows where
  ok_iff es x := by
    rw [bind_eq_ok, ← hok es x]
    refine ⟨fun ⟨_, _, h⟩ ↦ h, fun h ↦ ⟨(), ?_, h⟩⟩
    exact checkCount_eq_ok (Nat.zero_le _) (hlength es x ((hok es x).1 h))
  misplaced es hl h hn := by
    rw [checkCount_eq_ok (Nat.zero_le _) hl, ok_bind]
    exact hmisplaced es h fun x hx ↦ hn x ((hok es x).1 hx)
  value bytes es hes := by
    rw [hread, fields_of_decode hes, bind_assoc]
    rfl
  sequence bytes x h := by
    rw [hread] at h
    obtain ⟨_, h, -⟩ := map_eq_ok.1 h
    obtain ⟨es, hes, -⟩ := bind_eq_ok.1 h
    exact ⟨es, decode_of_fields hes⟩

namespace GeneratePassword

inductive IsSelection : Element → PolicySelection → Prop
  | default : IsSelection (.ofContent (.contextSpecific false 0) []) .default
  | policy (dn : String) :
    IsSelection (.ofContent (.contextSpecific false 1) (Utf8.encode dn)) (.policy dn)
  | target (dn : String) :
    IsSelection (.ofContent (.contextSpecific false 2) (Utf8.encode dn)) (.target dn)

def IsPasswords (e : Element) (w : Int32) : Prop :=
  e.IsNumber (.contextSpecific false 3) w.toInt ∧ 1 ≤ w

def IsAttempts (e : Element) (w : Int32) : Prop :=
  e.IsNumber (.contextSpecific false 4) w.toInt ∧ 0 ≤ w

inductive Follows : List Element → GeneratePassword → Prop
  | intro {ss ps as : List Element} {selection : Option PolicySelection}
      {passwords attempts : Option Int32} (hs : Perhaps IsSelection ss selection)
      (hp : Perhaps IsPasswords ps passwords) (ha : Perhaps IsAttempts as attempts) :
      Follows (ss ++ ps ++ as) ⟨selection.getD .default, passwords.getD 1, attempts.getD 5⟩

variable {e : Element} {es : List Element} {x y : GeneratePassword} {place : Nat}

theorem fieldRead_iff :
    FieldRead x e (place, y) ↔
      (place = 0 ∧ ∃ s, IsSelection e s ∧ y = { x with selection := s }) ∨
      (place = 1 ∧ ∃ w, IsPasswords e w ∧ y = { x with passwords := w }) ∨
      (place = 2 ∧ ∃ w, IsAttempts e w ∧ y = { x with attempts := w }) := by
  constructor
  · intro h
    cases h with
    | default ht hn =>
      rw [Element.eq_ofContent_of_asOctets ht (Element.asNull_eq_ok.1 hn)]
      exact .inl ⟨rfl, _, .default, rfl⟩
    | policy ht hdn =>
      rw [Element.eq_ofContent_of_asOctets ht (Element.asText_eq_ok_iff.1 hdn)]
      exact .inl ⟨rfl, _, .policy _, rfl⟩
    | target ht hdn =>
      rw [Element.eq_ofContent_of_asOctets ht (Element.asText_eq_ok_iff.1 hdn)]
      exact .inl ⟨rfl, _, .target _, rfl⟩
    | @passwords w ht hi hw =>
      exact .inr (.inl ⟨rfl, w, ⟨(Element.isNumber_iff rfl (fits_toInt w)).2 ⟨ht, hi⟩, hw⟩, rfl⟩)
    | @attempts w ht hi hw =>
      exact .inr (.inr ⟨rfl, w, ⟨(Element.isNumber_iff rfl (fits_toInt w)).2 ⟨ht, hi⟩, hw⟩, rfl⟩)
  · rintro (⟨rfl, s, hs, rfl⟩ | ⟨rfl, w, ⟨hn, hw⟩, rfl⟩ | ⟨rfl, w, ⟨hn, hw⟩, rfl⟩)
    · cases hs with
      | default => exact .default rfl rfl
      | policy dn => exact .policy rfl (Element.asText_context 1 dn)
      | target dn => exact .target rfl (Element.asText_context 2 dn)
    · obtain ⟨ht, hi⟩ := (Element.isNumber_iff rfl (fits_toInt w)).1 hn
      exact .passwords ht hi hw
    · obtain ⟨ht, hi⟩ := (Element.isNumber_iff rfl (fits_toInt w)).1 hn
      exact .attempts ht hi hw

theorem readField_selection (x : GeneratePassword) (e : Element) (y : GeneratePassword) :
    readField x e = .ok (0, y) ↔ ∃ s, IsSelection e s ∧ y = { x with selection := s } := by
  simp [readField_eq_ok_iff, fieldRead_iff]

theorem readField_passwords (x : GeneratePassword) (e : Element) (y : GeneratePassword) :
    readField x e = .ok (1, y) ↔ ∃ w, IsPasswords e w ∧ y = { x with passwords := w } := by
  simp [readField_eq_ok_iff, fieldRead_iff]

theorem readField_attempts (x : GeneratePassword) (e : Element) (y : GeneratePassword) :
    readField x e = .ok (2, y) ↔ ∃ w, IsAttempts e w ∧ y = { x with attempts := w } := by
  simp [readField_eq_ok_iff, fieldRead_iff]

theorem decode_eq_ok_iff : decode es = .ok x ↔ Follows es x := by
  have hend (x : GeneratePassword) (e : Element) (p : Nat) (y : GeneratePassword)
      (h : readField x e = .ok (p, y)) : p < 3 := by
    obtain ⟨rfl, -⟩ | ⟨rfl, -⟩ | ⟨rfl, -⟩ := fieldRead_iff.1 (readField_eq_ok_iff.1 h) <;> decide
  simp only [decode, orderedFields_next readField_selection,
    orderedFields_next readField_passwords, orderedFields_next readField_attempts,
    orderedFields_end hend]
  constructor
  · rintro ⟨ss, _, s, rfl, hs, ps, _, p, rfl, hp, as, _, a, rfl, ha, rfl, rfl⟩
    rw [List.append_nil, ← List.append_assoc]
    convert Follows.intro hs hp ha using 1
    cases s <;> cases p <;> cases a <;> rfl
  · rintro @⟨ss, ps, as, s, p, a, hs, hp, ha⟩
    refine ⟨ss, ps ++ as, s, List.append_assoc .., hs, ps, as, p, rfl, hp, as, [], a,
      (List.append_nil as).symm, ha, rfl, ?_⟩
    cases s <;> cases p <;> cases a <;> rfl

theorem length_le_of_follows (h : Follows es x) : es.length ≤ 3 := by
  cases h with
  | intro hs hp ha =>
    have h0 := hs.length_le
    have h1 := hp.length_le
    have h2 := ha.length_le
    simp only [List.length_append]
    omega

/-- What can be read alone can be read behind any fields. -/
theorem exists_readField (h : ∃ x, Follows [e] x) (x : GeneratePassword) :
    ∃ p y, readField x e = .ok (p, y) := by
  obtain ⟨y, h⟩ := h
  obtain ⟨⟨p, z⟩, hz, -⟩ := bind_eq_ok.1 (decode_eq_ok_iff.2 h)
  obtain ⟨-, b, hb, -⟩ | ⟨-, b, hb, -⟩ | ⟨-, b, hb, -⟩ := fieldRead_iff.1 (readField_eq_ok_iff.1 hz)
  · exact ⟨0, _, (readField_selection x e _).2 ⟨b, hb, rfl⟩⟩
  · exact ⟨1, _, (readField_passwords x e _).2 ⟨b, hb, rfl⟩⟩
  · exact ⟨2, _, (readField_attempts x e _).2 ⟨b, hb, rfl⟩⟩

theorem readsInOrder :
    Payload.ReadsInOrder (fun bytes ↦ extension.decode ⟨extension.oid, some bytes⟩) () name 3
      decode Follows :=
  .of_fields (fun _ ↦ Extension.decode_of_oid? rfl)
    (fun _ _ ↦ decode_eq_ok_iff) (fun _ _ ↦ length_le_of_follows)
    fun _ h hn ↦ orderedFields_misplaced (fun e he ↦ exists_readField (h e he)) hn

end GeneratePassword

namespace PasswordPolicy

def IsWarning (e : Element) (w : Warning) : Prop :=
  ∃ choice : Element, e = .ofChildren (.contextSpecific true 0) [choice] ∧
    choice.IsNumber (.contextSpecific false w.number) w.amount.toInt ∧ 0 ≤ w.amount

def IsProblem (e : Element) (p : Problem) : Prop :=
  e.IsNumber (.contextSpecific false 1) p.code

inductive Follows : List Element → PasswordPolicy → Prop
  | intro {ws ps : List Element} {warning : Option Warning} {problem : Option Problem}
      (hw : Perhaps IsWarning ws warning) (hp : Perhaps IsProblem ps problem) :
      Follows (ws ++ ps) ⟨warning, problem⟩

variable {e : Element} {es : List Element} {x : PasswordPolicy}

theorem isWarning_iff (e : Element) (w : Warning) :
    e.tag = warningTag ∧ Warning.decode e = .ok w ↔ IsWarning e w := by
  have hchoice (choice : Element) :
      choice.IsNumber (.contextSpecific false w.number) w.amount.toInt ↔
        choice.tag = .contextSpecific false w.number ∧ choice.asInteger = .ok w.amount.toInt :=
    Element.isNumber_iff rfl (fits_toInt w.amount)
  simp only [Warning.decode_eq_ok_iff, IsWarning, hchoice]
  constructor
  · rintro ⟨ht, choice, hchoices, htag, hi, hw⟩
    exact ⟨choice, Element.eq_ofChildren_of_asChildren ht hchoices, ⟨htag, hi⟩, hw⟩
  · rintro ⟨choice, rfl, ⟨htag, hi⟩, hw⟩
    exact ⟨rfl, choice, rfl, htag, hi, hw⟩

theorem isProblem_iff (e : Element) (p : Problem) :
    e.tag = problemTag ∧ decode.readProblem e = .ok p ↔ IsProblem e p := by
  have hcode : Integer.Fits 63 p.code := by cases p <;> decide
  rw [IsProblem, Element.isNumber_iff rfl hcode]
  refine and_congr_right fun _ ↦ ?_
  rw [decode.readProblem, bind_eq_ok]
  constructor
  · rintro ⟨v, hv, h⟩
    rw [← Problem.code_of_ofCode h]
    exact within_eq_ok.1 hv
  · intro h
    exact ⟨p.code, within_eq_ok.2 h, Problem.ofCode_code p⟩

theorem decode_eq_ok_iff : decode es = .ok x ↔ Follows es x := by
  obtain ⟨warning, problem⟩ := x
  rw [decode, bind_eq_ok]
  constructor
  · rintro ⟨⟨w, p⟩, h, hx⟩
    cases hx
    obtain ⟨ws, ps, rfl, hw, hp⟩ :=
      (optionalFields_perhaps isWarning_iff isProblem_iff (by decide)).1 h
    exact .intro hw hp
  · rintro ⟨hw, hp⟩
    exact ⟨(warning, problem),
      (optionalFields_perhaps isWarning_iff isProblem_iff (by decide)).2 ⟨_, _, rfl, hw, hp⟩, rfl⟩

theorem length_le_of_follows (h : Follows es x) : es.length ≤ 2 := by
  cases h with
  | intro hw hp =>
    rw [List.length_append]
    exact Nat.add_le_add hw.length_le hp.length_le

theorem isWarning_or_isProblem (h : ∃ x, Follows [e] x) :
    (∃ w, IsWarning e w) ∨ ∃ p, IsProblem e p := by
  obtain ⟨x, h⟩ := h
  generalize hes : [e] = es at h
  cases h with
  | intro hw hp =>
    cases hw with
    | none =>
      cases hp with
      | none => cases hes
      | some hp =>
        cases hes
        exact .inr ⟨_, hp⟩
    | some hw =>
      cases hes
      exact .inl ⟨_, hw⟩

theorem readsInOrder (critical : Bool) :
    Payload.ReadsInOrder (fun bytes ↦ extension.decode ⟨extension.oid, critical, some bytes⟩)
      critical name 2 decode Follows := by
  refine .of_fields (fun bytes ↦ Extension.decode_of_oid? rfl) (fun _ _ ↦ decode_eq_ok_iff)
    (fun _ _ ↦ length_le_of_follows) fun es h hn ↦ ?_
  refine (foldlM_takeField_misplaced (by decide) (fun e he ↦ ?_) fun z hz ↦ ?_).bind _
  · simp only [isWarning_iff, isProblem_iff]
    exact isWarning_or_isProblem (h e he)
  · exact hn ⟨z.1, z.2⟩ (bind_eq_ok.2 ⟨z, hz, rfl⟩)

end PasswordPolicy

namespace UpdateControls

def Is (e : Element) (u : UpdateControls) : Prop :=
  ∃ id : Element, e = .sequence [id, u.controls] ∧ id.IsNumber .integer u.messageId.toInt ∧
    0 ≤ u.messageId ∧ u.controls.tag = .sequence

theorem decode_eq_ok_iff {e : Element} {u : UpdateControls} : decode e = .ok u ↔ Is e u := by
  constructor
  · intro h
    obtain ⟨_, htag, h⟩ := bind_eq_ok.1 h
    obtain ⟨children, hchildren, h⟩ := bind_eq_ok.1 h
    obtain ⟨_, hcount, h⟩ := bind_eq_ok.1 h
    obtain ⟨id, controls, rfl⟩ := List.length_eq_two.1
      (Nat.le_antisymm (length_of_checkCount hcount).2 (length_of_checkCount hcount).1)
    obtain ⟨_, hid, h⟩ := bind_eq_ok.1 h
    obtain ⟨w, hw, h⟩ := bind_eq_ok.1 h
    obtain ⟨_, hcontrols, h⟩ := bind_eq_ok.1 h
    cases h
    obtain ⟨hi, h0⟩ := nonNegative_eq_ok_iff.1 hw
    exact ⟨id, Element.eq_ofChildren_of_asChildren (tag_of_expectField htag) hchildren,
      (Element.isNumber_iff rfl (fits_toInt w)).2 ⟨tag_of_expectField hid, hi⟩, h0,
      tag_of_expectField hcontrols⟩
  · obtain ⟨w, controls⟩ := u
    rintro ⟨id, rfl, hid, h0, hcontrols⟩
    obtain ⟨ht, hi⟩ := (Element.isNumber_iff rfl (fits_toInt w)).1 hid
    have hs : expectField (.sequence [id, controls]) .sequence what = .ok () :=
      expectField_eq_ok rfl
    have hcount : checkCount [id, controls] 2 2 what = .ok () := rfl
    simp only [decode, hs, hcount, Element.asChildren_sequence, ok_bind, expectField_eq_ok ht,
      expectField_eq_ok hcontrols, nonNegative_eq_ok_iff.2 ⟨hi, h0⟩]

end UpdateControls

namespace EndedTransaction

def IsFailedId (e : Element) (w : Int32) : Prop := e.IsNumber .integer w.toInt ∧ 0 ≤ w

def AreUpdates (e : Element) (updates : List UpdateControls) : Prop :=
  ∃ children, e = .sequence children ∧ List.Forall₂ UpdateControls.Is children updates

inductive Follows : List Element → EndedTransaction → Prop
  | intro {fs us : List Element} {failed : Option Int32} {updates : Option (List UpdateControls)}
      (hf : Perhaps IsFailedId fs failed) (hu : Perhaps AreUpdates us updates) :
      Follows (fs ++ us) ⟨failed, updates.getD []⟩

variable {e : Element} {es : List Element} {x y : EndedTransaction} {place : Nat}

theorem readField_eq_ok_iff :
    readField x e = .ok (place, y) ↔
      (place = 0 ∧ ∃ w, IsFailedId e w ∧ y = { x with failedMessageId := some w }) ∨
      (place = 1 ∧ ∃ us, AreUpdates e us ∧ y = { x with updates := us }) := by
  constructor
  · intro h
    unfold readField at h
    split at h
    · rename_i ht
      obtain ⟨w, hw, h⟩ := bind_eq_ok.1 h
      cases h
      obtain ⟨hi, h0⟩ := nonNegative_eq_ok_iff.1 hw
      exact .inl ⟨rfl, w, ⟨(Element.isNumber_iff rfl (fits_toInt w)).2 ⟨ht, hi⟩, h0⟩, rfl⟩
    split at h
    · rename_i ht
      obtain ⟨children, hchildren, h⟩ := bind_eq_ok.1 h
      obtain ⟨us, hus, h⟩ := bind_eq_ok.1 h
      cases h
      have hf := (mapM_eq_ok_iff.1 hus).imp fun _ _ ↦ UpdateControls.decode_eq_ok_iff.1
      exact .inr ⟨rfl, us, ⟨children, Element.eq_ofChildren_of_asChildren ht hchildren, hf⟩, rfl⟩
    · cases h
  · rintro (⟨rfl, w, ⟨hn, h0⟩, rfl⟩ | ⟨rfl, us, ⟨children, rfl, hf⟩, rfl⟩)
    · obtain ⟨ht, hi⟩ := (Element.isNumber_iff rfl (fits_toInt w)).1 hn
      rw [readField, if_pos ht, nonNegative_eq_ok_iff.2 ⟨hi, h0⟩, ok_bind]
    · have hus := mapM_eq_ok_iff.2 (hf.imp fun _ _ ↦ UpdateControls.decode_eq_ok_iff.2)
      rw [readField_updates, hus]
      rfl

theorem readField_failedId (x : EndedTransaction) (e : Element) (y : EndedTransaction) :
    readField x e = .ok (0, y) ↔
      ∃ w, IsFailedId e w ∧ y = { x with failedMessageId := some w } := by
  simp [readField_eq_ok_iff]

theorem readField_areUpdates (x : EndedTransaction) (e : Element) (y : EndedTransaction) :
    readField x e = .ok (1, y) ↔ ∃ us, AreUpdates e us ∧ y = { x with updates := us } := by
  simp [readField_eq_ok_iff]

theorem decode_eq_ok_iff : decode es = .ok x ↔ Follows es x := by
  have hend (x : EndedTransaction) (e : Element) (p : Nat) (y : EndedTransaction)
      (h : readField x e = .ok (p, y)) : p < 2 := by
    obtain ⟨rfl, -⟩ | ⟨rfl, -⟩ := readField_eq_ok_iff.1 h <;> decide
  simp only [decode, orderedFields_next readField_failedId,
    orderedFields_next readField_areUpdates, orderedFields_end hend]
  constructor
  · rintro ⟨fs, _, f, rfl, hf, us, _, u, rfl, hu, rfl, rfl⟩
    rw [List.append_nil]
    convert Follows.intro hf hu using 1
    cases f <;> cases u <;> rfl
  · rintro @⟨fs, us, f, u, hf, hu⟩
    refine ⟨fs, us, f, rfl, hf, us, [], u, (List.append_nil us).symm, hu, rfl, ?_⟩
    cases f <;> cases u <;> rfl

theorem length_le_of_follows (h : Follows es x) : es.length ≤ 2 := by
  cases h with
  | intro hf hu =>
    rw [List.length_append]
    exact Nat.add_le_add hf.length_le hu.length_le

theorem exists_readField (h : ∃ x, Follows [e] x) (x : EndedTransaction) :
    ∃ p y, readField x e = .ok (p, y) := by
  obtain ⟨y, h⟩ := h
  obtain ⟨⟨p, z⟩, hz, -⟩ := bind_eq_ok.1 (decode_eq_ok_iff.2 h)
  obtain ⟨-, b, hb, -⟩ | ⟨-, b, hb, -⟩ := readField_eq_ok_iff.1 hz
  · exact ⟨0, _, (readField_failedId x e _).2 ⟨b, hb, rfl⟩⟩
  · exact ⟨1, _, (readField_areUpdates x e _).2 ⟨b, hb, rfl⟩⟩

theorem readsInOrder (result : OperationResult) (oid : Option String) :
    Payload.ReadsInOrder (fun bytes ↦ ofResult ⟨result, oid, some bytes⟩) result name 2 decode
      Follows :=
  .of_fields (fun _ ↦ rfl) (fun _ _ ↦ decode_eq_ok_iff) (fun _ _ ↦ length_le_of_follows)
    fun _ h hn ↦ orderedFields_misplaced (fun e he ↦ exists_readField (h e he)) hn

end EndedTransaction

/-- Each value with fields that may be left out has them in one order. -/
theorem Payload.fields_read_in_order (critical : Bool) (result : OperationResult)
    (oid : Option String) :
    ReadsInOrder
      (fun bytes ↦ GeneratePassword.extension.decode ⟨GeneratePassword.extension.oid, some bytes⟩)
      () GeneratePassword.name 3 GeneratePassword.decode GeneratePassword.Follows ∧
    ReadsInOrder
      (fun bytes ↦ PasswordPolicy.extension.decode
        ⟨PasswordPolicy.extension.oid, critical, some bytes⟩)
      critical PasswordPolicy.name 2 PasswordPolicy.decode PasswordPolicy.Follows ∧
    ReadsInOrder (fun bytes ↦ EndedTransaction.ofResult ⟨result, oid, some bytes⟩)
      result EndedTransaction.name 2 EndedTransaction.decode EndedTransaction.Follows :=
  ⟨GeneratePassword.readsInOrder, PasswordPolicy.readsInOrder critical,
    EndedTransaction.readsInOrder result oid⟩

/-- Two selections beside each other, and the updates of a transaction before the message that
made it fail. -/
theorem Payload.fields_read_in_order_misplaced :
    let policy := (Element.text "cn=p").context 1
    let target := (Element.text "cn=t").context 2
    let passwords := (Element.integer 3).context 3
    let failed := Element.integer 7
    let updates := Element.sequence []
    GeneratePassword.extension.decode ⟨GeneratePassword.extension.oid,
      some (Element.sequence [policy, passwords]).encode⟩ =
        .ok ⟨(), ⟨.policy "cn=p", 3, 5⟩, .of (some (Element.sequence [policy, passwords]).encode)⟩ ∧
    FailsAs .invalidElementType (GeneratePassword.decode [policy, target]) ∧
    EndedTransaction.decode [failed, updates] = .ok ⟨some 7, []⟩ ∧
    FailsAs .invalidElementType (EndedTransaction.decode [updates, failed]) := by
  intro policy target passwords failed updates
  obtain ⟨hrequest, -, hresult⟩ := fields_read_in_order true .success none
  have hselections : (GeneratePassword.decode [policy, target]).toOption = none := by
    decide +kernel
  have hids : (EndedTransaction.decode [updates, failed]).toOption = none := by decide +kernel
  refine ⟨?_, ?_, by decide +kernel, ?_⟩
  · have hes : Element.decode (Element.sequence [policy, passwords]).encode =
        .ok (.sequence [policy, passwords]) := by decide +kernel
    have hfields : GeneratePassword.decode [policy, passwords] = .ok ⟨.policy "cn=p", 3, 5⟩ := by
      decide +kernel
    refine (hrequest.value _ _ hes).trans ?_
    rw [hfields]
    rfl
  · refine hrequest.misplaced [policy, target] (by decide) ?_ fun x hx ↦ ?_
    · have hp := (hrequest.ok_iff [policy] ⟨.policy "cn=p", 1, 5⟩).1 (by decide +kernel)
      have ht := (hrequest.ok_iff [target] ⟨.target "cn=t", 1, 5⟩).1 (by decide +kernel)
      simpa using ⟨⟨_, hp⟩, ⟨_, ht⟩⟩
    · rw [show GeneratePassword.decode _ = _ from (hrequest.ok_iff _ _).2 hx] at hselections
      cases hselections
  · refine hresult.misplaced [updates, failed] (by decide) ?_ fun x hx ↦ ?_
    · have hu := (hresult.ok_iff [updates] ⟨none, []⟩).1 (by decide +kernel)
      have hf := (hresult.ok_iff [failed] ⟨some 7, []⟩).1 (by decide +kernel)
      simpa using ⟨⟨_, hu⟩, ⟨_, hf⟩⟩
    · rw [show EndedTransaction.decode _ = _ from (hresult.ok_iff _ _).2 hx] at hids
      cases hids

end LdapCodec
