import LdapCodec.Proofs.Ber.Recoding
import LdapCodec.Proofs.Encoded
import LdapCodec.Proofs.Json.Reading

namespace LdapCodec

open Ber Json
open Element (encodeAll)

/-- Whatever is decoded of a value is decoded of the value that is written for it. -/
def Extension.Settles {E H α : Type} (x : Extension E H α) : Prop :=
  ∀ hd value a, x.decodeValue hd value = .ok a → x.Carries hd a

/-- The fields of a value are short enough for a sequence of their own. -/
theorem Payload.length_fields_lt {value : Option Bytes} {name : String} {min max : Nat}
    {es : List Element} (h : fields value name min max = .ok es) :
    (encodeAll es).length < 2 ^ 32 := by
  cases value with
  | none => cases h
  | some bytes =>
    obtain ⟨_, hspells⟩ := Element.decode_eq_ok_iff.1 (decode_of_fields h)
    rw [← Element.content_sequence]
    exact Element.length_content_lt_of_spells hspells

theorem Extension.Settles.of_fields {E H α : Type} {x : Extension E H α} {name : String}
    {min max : Nat} {decode : List Element → Except DecodeError α} {encode : α → Element}
    (hx : ∀ hd value, x.decodeValue hd value = Payload.fields value name min max >>= decode)
    (hl : ∀ es a, decode es = .ok a → (encode a).content.length ≤ (encodeAll es).length)
    (hc : ∀ hd es a, decode es = .ok a → (encode a).content.length < 2 ^ 32 → x.Carries hd a) :
    x.Settles := by
  intro hd value a h
  rw [hx] at h
  obtain ⟨es, hes, ha⟩ := bind_eq_ok.1 h
  apply hc hd es a ha
  exact Nat.lt_of_le_of_lt (hl es a ha) (Payload.length_fields_lt hes)

/-- A result without a value carries nothing, and one with a value carries what is in it. -/
theorem Extension.Settles.of_resultValue {E α : Type} {x : Extension E OperationResult (Option α)}
    {name : String} {min max : Nat} {decode : List Element → Except DecodeError α}
    {encode : α → Element}
    (hx : x.decodeValue = resultValue name fun value ↦
      Payload.fields value name min max >>= decode)
    (hn : x.encodeValue none = none)
    (hl : ∀ es a, decode es = .ok a → (encode a).content.length ≤ (encodeAll es).length)
    (hc : ∀ hd es a, decode es = .ok a → (encode a).content.length < 2 ^ 32 →
      x.Carries hd (some a)) : x.Settles := by
  intro hd value a h
  rw [hx] at h
  cases a with
  | none => exact .failed hx hn (isSuccess_of_resultValue h)
  | some a =>
    obtain ⟨es, hes, ha⟩ := bind_eq_ok.1 (read_of_resultValue h)
    apply hc hd es a ha
    exact Nat.lt_of_le_of_lt (hl es a ha) (Payload.length_fields_lt hes)

theorem ManageDsaIt.settles : extension.Settles := fun hd _ x _ ↦ carries hd x

theorem TransactionSpecification.settles : extension.Settles := fun hd _ x _ ↦ carries hd x

theorem StartTransaction.settles : extension.Settles := fun hd _ x _ ↦ carries hd x

namespace ExcludeBranch

theorem length_encode_le {es : List Element} {x : ExcludeBranch} (h : decode es = .ok x) :
    (encode x).content.length ≤ (encodeAll es).length := by
  cases es with
  | nil => cases h
  | cons first rest =>
    obtain ⟨_, _, h⟩ := bind_eq_ok.1 h
    obtain ⟨children, hchildren, h⟩ := bind_eq_ok.1 h
    obtain ⟨baseDns, hm, h⟩ := bind_eq_ok.1 h
    obtain ⟨rfl, _⟩ := check_eq_ok_iff.1 h
    have hr : Recodes baseDnsTag _ _ :=
      (Recodes.textField "Exclude branch base DN").children (by decide) rfl
    have hl : ((Element.sequence (baseDns.map Element.text)).context 0).encode.length ≤
        first.encode.length := hr.length_encode_le (bind_eq_ok.2 ⟨children, hchildren, hm⟩)
    rw [encode, Element.content_sequence]
    simp only [encodeAll, List.length_append, List.length_nil]
    omega

theorem settles : extension.Settles :=
  .of_fields (fun _ _ ↦ rfl) (fun _ _ ↦ length_encode_le) fun hd _ _ h ↦
    carries (valid_of_decode h) hd

end ExcludeBranch

namespace PasswordPolicy

theorem Warning.recodes : Recodes warningTag Warning.decode Warning.encode := by
  refine ⟨by decide, fun _ ↦ rfl, fun e w h ↦ ?_⟩
  obtain ⟨choice, hchoices, -, hi, -⟩ := Warning.decode_eq_ok_iff.1 h
  let written := (Element.integer w.amount.toInt).context w.number
  have hn : (Tag.contextSpecific false w.number).number.toNat ≤ 30 := by
    cases w with
    | timeBeforeExpiration _ => exact Nat.zero_le 30
    | graceLoginsRemaining _ => exact (by decide : (1 : UInt32).toNat ≤ 30)
  have hl : written.encode.length ≤ choice.encode.length :=
    (Recodes.integer (.contextSpecific false w.number) hn rfl).length_encode_le hi
  have hcontent : (Warning.encode w).content = encodeAll [written] := rfl
  rw [hcontent, Element.content_of_asChildren hchoices]
  simp only [encodeAll, List.length_append, List.length_nil]
  omega

theorem Problem.code_of_ofCode {v : Int} {p : Problem} (h : ofCode v = .ok p) : v = p.code := by
  unfold ofCode at h
  split at h
  · rename_i found hf
    cases h
    have hv := List.find?_some hf
    exact (eq_of_beq hv).symm
  · cases h

theorem recodes_problem :
    Recodes problemTag decode.readProblem
      fun p : Problem ↦ (Element.enumerated p.code).context 1 := by
  refine (Recodes.integer problemTag (by decide) rfl).comap
    (fun p : Problem ↦ (p.code : Int)) fun e p h ↦ ?_
  obtain ⟨v, hv, h⟩ := bind_eq_ok.1 h
  rw [← Problem.code_of_ofCode h]
  exact within_eq_ok.1 hv

theorem length_encode_le {es : List Element} {x : PasswordPolicy} (h : decode es = .ok x) :
    (encode x).content.length ≤ (encodeAll es).length := by
  obtain ⟨⟨warning, problem⟩, hfields, h⟩ := bind_eq_ok.1 h
  cases h
  obtain ⟨rest, hw, hp⟩ := optionalFields_eq_ok_iff.1 hfields
  have hwl := Warning.recodes.length_optionalField_le hw
  have hpl := recodes_problem.length_last_le hp
  rw [encode, Element.content_sequence, Element.encodeAll_append, List.length_append]
  exact Nat.le_trans (Nat.add_le_add_left hpl _) hwl

theorem settles : extension.Settles :=
  .of_fields (fun _ _ ↦ rfl) (fun _ _ ↦ length_encode_le) fun hd _ _ h ↦
    carries (valid_of_decode h) hd

end PasswordPolicy

namespace BackupQuery

theorem length_encode_le {es : List Element} {x : BackupQuery} (h : decode es = .ok x) :
    (encode x).content.length ≤ (encodeAll es).length := by
  cases es with
  | nil => cases h
  | cons first rest =>
    obtain ⟨_, _, h⟩ := bind_eq_ok.1 h
    obtain ⟨baseDn, ht, h⟩ := bind_eq_ok.1 h
    cases h
    have hl : ((Element.text baseDn).context 0).encode.length ≤ first.encode.length :=
      (Recodes.text (.contextSpecific false 0) (by decide) rfl).length_encode_le (within_eq_ok.1 ht)
    rw [encode, Element.content_sequence]
    simp only [encodeAll, List.length_append, List.length_nil]
    omega

theorem settles : extension.Settles :=
  .of_fields (fun _ _ ↦ rfl) (fun _ _ ↦ length_encode_le) fun hd _ x _ ↦ carries hd x

end BackupQuery

namespace EndTransaction

theorem of_readId {commit : Bool} {id : Element} {x : EndTransaction}
    (h : decode.readId commit id = .ok x) :
    x.commit = commit ∧ id.asOctets = .ok x.transactionId := by
  obtain ⟨_, _, h⟩ := bind_eq_ok.1 h
  obtain ⟨octets, ho, h⟩ := bind_eq_ok.1 h
  cases h
  exact ⟨rfl, ho⟩

theorem length_encode_le {es : List Element} {x : EndTransaction} (h : decode es = .ok x) :
    (encode x).content.length ≤ (encodeAll es).length := by
  have hoctets : Recodes .octetString Element.asOctets Element.octetString :=
    Recodes.octets .octetString (by decide) rfl
  rw [encode, Element.content_sequence, Element.encodeAll_append, List.length_append]
  unfold decode at h
  split at h
  · rename_i id
    obtain ⟨hc, ho⟩ := of_readId h
    have hl := hoctets.length_encode_le ho
    simp only [hc, if_true, encodeAll, List.length_append, List.length_nil]
    omega
  · rename_i flag id rest
    obtain ⟨_, _, h⟩ := bind_eq_ok.1 h
    obtain ⟨commit, hflag, h⟩ := bind_eq_ok.1 h
    obtain ⟨rfl, ho⟩ := of_readId h
    have hl := hoctets.length_encode_le ho
    have hf := Recodes.boolean.length_encode_le hflag
    cases hc : x.commit with
    | true =>
      simp only [if_true, encodeAll, List.length_append, List.length_nil]
      omega
    | false =>
      rw [hc] at hf
      simp only [Bool.false_eq_true, if_false, encodeAll, List.length_append, List.length_nil]
      omega
  · cases h

theorem settles : extension.Settles :=
  .of_fields (fun _ _ ↦ rfl) (fun _ _ ↦ length_encode_le) fun hd _ x _ ↦ carries hd x

end EndTransaction

namespace GeneratePassword

theorem length_encodeFields (x : GeneratePassword) :
    (encodeAll (encodeFields x)).length =
      (encodeAll (encodeSelection x.selection)).length +
        (encodeAll (if x.passwords = defaultPasswords then []
          else [(Element.integer x.passwords.toInt).context 3])).length +
        (encodeAll (if x.attempts = defaultAttempts then []
          else [(Element.integer x.attempts.toInt).context 4])).length := by
  rw [encodeFields, Element.encodeAll_append, Element.encodeAll_append, List.length_append,
    List.length_append]

theorem length_unless_le {p : Prop} [Decidable p] {x e : Element}
    (h : x.encode.length ≤ e.encode.length) :
    (encodeAll (if p then [] else [x])).length ≤ e.encode.length := by
  split
  · exact Nat.zero_le _
  · simpa only [encodeAll, List.append_nil] using h

theorem length_integer_le {e : Element} {v : Int} {n : UInt32} (hn : n.toNat ≤ 30)
    (h : e.asInteger = .ok v) : ((Element.integer v).context n).encode.length ≤ e.encode.length :=
  (Recodes.integer (.contextSpecific false n) hn rfl).length_encode_le h

theorem length_text_le {e : Element} {s : String} {n : UInt32} (hn : n.toNat ≤ 30)
    (h : e.asText = .ok s) : ((Element.text s).context n).encode.length ≤ e.encode.length :=
  (Recodes.text (.contextSpecific false n) hn rfl).length_encode_le h

/-- A field replaces what was selected before, so that what is written grows by no more than
the field. -/
theorem length_readField_le (x : GeneratePassword) (e : Element) (place : Nat)
    (y : GeneratePassword) (h : readField x e = .ok (place, y)) :
    (encodeAll (encodeFields y)).length ≤
      (encodeAll (encodeFields x)).length + e.encode.length := by
  rw [length_encodeFields, length_encodeFields]
  cases readField_eq_ok_iff.1 h with
  | default =>
    simp only [encodeSelection, encodeAll, List.length_nil]
    omega
  | policy _ hdn =>
    have hl := length_text_le (n := 1) (by decide) hdn
    simp only [encodeSelection, encodeAll, List.length_append, List.length_nil]
    omega
  | target _ hdn =>
    have hl := length_text_le (n := 2) (by decide) hdn
    simp only [encodeSelection, encodeAll, List.length_append, List.length_nil]
    omega
  | @passwords w _ hi =>
    have hl := length_integer_le (n := 3) (by decide) hi
    have hp := length_unless_le (p := w = defaultPasswords) hl
    dsimp only
    omega
  | @attempts w _ hi =>
    have hl := length_integer_le (n := 4) (by decide) hi
    have ha := length_unless_le (p := w = defaultAttempts) hl
    dsimp only
    omega

theorem settles : extension.Settles := by
  intro hd value x h
  refine carries (valid_of_decodeValue h) hd ?_
  rw [Element.content_sequence]
  cases value with
  | none =>
    cases h
    decide
  | some bytes =>
    obtain ⟨es, hes, h⟩ := bind_eq_ok.1 h
    have hl := length_orderedFields_le (fun x ↦ (encodeAll (encodeFields x)).length)
      length_readField_le h
    have hs : (encodeAll (encodeFields standard)).length = 0 := by decide
    have hes := Payload.length_fields_lt hes
    omega

end GeneratePassword

theorem GeneratedPassword.recodes : Recodes .sequence decode encode := by
  refine ⟨by decide, fun _ ↦ rfl, fun e x h ↦ ?_⟩
  obtain ⟨_, _, h⟩ := bind_eq_ok.1 h
  obtain ⟨children, hchildren, h⟩ := bind_eq_ok.1 h
  obtain ⟨_, _, h⟩ := bind_eq_ok.1 h
  rw [Element.content_of_asChildren hchildren, encode, Element.content_sequence,
    Element.encodeAll_append, List.length_append]
  obtain _ | ⟨first, _ | ⟨second, rest⟩⟩ := children
  · cases h
  · cases h
  obtain ⟨password, hp, h⟩ := bind_eq_ok.1 h
  obtain ⟨_, _, h⟩ := bind_eq_ok.1 h
  obtain ⟨attempted, ha, h⟩ := bind_eq_ok.1 h
  have hpl := (Recodes.textField "Generated password value").length_encode_le hp
  have hal := Recodes.boolean.length_encode_le ha
  cases rest with
  | nil =>
    cases h
    simp only [if_true, encodeAll, List.length_append, List.length_nil]
    omega
  | cons third more =>
    obtain ⟨_, _, h⟩ := bind_eq_ok.1 h
    obtain ⟨es, hes, h⟩ := bind_eq_ok.1 h
    obtain ⟨errors, he, h⟩ := bind_eq_ok.1 h
    cases h
    have hr : Recodes (.contextSpecific true 0) _ _ :=
      (Recodes.textField "Validation error").children (by decide) rfl
    have hel : ((Element.sequence (errors.map Element.text)).context 0).encode.length ≤
        third.encode.length := hr.length_encode_le (bind_eq_ok.2 ⟨es, hes, he⟩)
    split
    · simp only [encodeAll, List.length_append, List.length_nil]
      omega
    · simp only [encodeAll, List.length_append, List.length_nil]
      omega

namespace GeneratedPasswords

theorem length_encode_le {es : List Element} {x : GeneratedPasswords} (h : decode es = .ok x) :
    (encode x).content.length ≤ (encodeAll es).length := by
  unfold decode at h
  split at h
  · rename_i first second rest
    obtain ⟨policyDn, hp, h⟩ := bind_eq_ok.1 h
    obtain ⟨_, _, h⟩ := bind_eq_ok.1 h
    obtain ⟨children, hchildren, h⟩ := bind_eq_ok.1 h
    obtain ⟨passwords, hm, h⟩ := bind_eq_ok.1 h
    obtain ⟨rfl, _⟩ := check_eq_ok_iff.1 h
    have hr : Recodes .sequence _ _ := GeneratedPassword.recodes.children (by decide) rfl
    have hpl := (Recodes.textField "Password policy DN").length_encode_le hp
    have hml : (Element.sequence (passwords.map GeneratedPassword.encode)).encode.length ≤
        second.encode.length := hr.length_encode_le (bind_eq_ok.2 ⟨children, hchildren, hm⟩)
    rw [encode, Element.content_sequence]
    simp only [encodeAll, List.length_append, List.length_nil]
    omega
  · obtain ⟨_, hv⟩ := check_eq_ok_iff.1 h
    cases h

theorem settles : extension.Settles :=
  .of_resultValue decodeValue_eq rfl (fun _ _ ↦ length_encode_le)
    fun hd _ _ hx ↦ carries_some (valid_of_decode hx) hd

end GeneratedPasswords

namespace BackupDescriptor

theorem length_encode_le {es : List Element} {x : BackupDescriptor} (h : decode es = .ok x) :
    (encode x).content.length ≤ (encodeAll es).length := by
  cases es with
  | nil => cases h
  | cons first rest =>
    obtain ⟨_, _, h⟩ := bind_eq_ok.1 h
    obtain ⟨descriptor, hd, h⟩ := bind_eq_ok.1 h
    obtain ⟨⟨properties, more⟩, hp, h⟩ := bind_eq_ok.1 h
    obtain ⟨_, hn, h⟩ := bind_eq_ok.1 h
    cases h
    cases noMoreFields_eq_ok hn
    have hr : Recodes (.contextSpecific true 1) decode.readProperties
        fun xs ↦ (Element.sequence (xs.map Element.text)).context 1 :=
      (Recodes.textField "Backup compatibility property").children (by decide) rfl
    have hdl : ((Element.octetString descriptor).context 0).encode.length ≤ first.encode.length :=
      (Recodes.octets (.contextSpecific false 0) (by decide) rfl).length_encode_le hd
    have hpl := hr.length_last_le hp
    rw [encode, Element.content_sequence, Element.encodeAll_append, List.length_append]
    -- An empty list of properties is not written.
    have hempty : (encodeAll (if properties.getD [] = [] then []
        else [(Element.sequence ((properties.getD []).map Element.text)).context 1])).length ≤
          (encodeAll (properties.map fun xs ↦
            (Element.sequence (xs.map Element.text)).context 1).toList).length := by
      cases properties with
      | none => exact Nat.le_refl _
      | some xs => cases xs <;> simp [encodeAll]
    simp only [encodeAll, List.length_append, List.length_nil] at hempty ⊢
    omega

theorem settles : extension.Settles :=
  .of_resultValue decodeValue_eq rfl (fun _ _ ↦ length_encode_le) fun hd _ x _ ↦ carries_some x hd

end BackupDescriptor

namespace MissingChangelog

theorem length_encode_le {es : List Element} {x : MissingChangelog} (h : decode es = .ok x) :
    (encode x).content.length ≤ (encodeAll es).length := by
  obtain ⟨⟨message, rest⟩, hm, h⟩ := bind_eq_ok.1 h
  obtain ⟨_, hn, h⟩ := bind_eq_ok.1 h
  cases h
  cases noMoreFields_eq_ok hn
  have hr := (Recodes.text messageTag (by decide) rfl).within "Missing changelog message"
  exact hr.length_last_le hm

theorem settles : extension.Settles :=
  .of_fields (fun _ _ ↦ rfl) (fun _ _ ↦ length_encode_le) fun hd _ x _ ↦ carries hd x

end MissingChangelog

namespace JsonFormatted

def WithoutDoubles (value : Option Bytes) : Prop :=
  ∀ bytes text v, value = some bytes → Utf8.decode bytes = .ok text →
    Value.read? text = some v → ¬v.HasDouble

/-- What the documents of a text were read of. -/
theorem read?_of_decode {name : String} {bytes : Bytes} {x : JsonFormatted}
    (h : decode name bytes = .ok x) :
    ∃ text ms, Utf8.decode bytes = .ok text ∧ Value.read? text = some (.object ms) ∧
      ("controls", .array x.controls) ∈ ms := by
  unfold decode at h
  split at h
  · cases h
  · rename_i v hv
    obtain ⟨ms, hms, h⟩ := bind_eq_ok.1 h
    obtain ⟨controls, hc, h⟩ := bind_eq_ok.1 h
    cases h
    obtain ⟨text, ht, hr⟩ := Option.bind_eq_some_iff.1 hv
    obtain ⟨list, hlist, hitems⟩ := Option.bind_eq_some_iff.1 (orInvalid_eq_ok hc)
    obtain rfl := eq_object_of_checkFields hms
    obtain rfl := Value.eq_array_of_asItems? hitems
    exact ⟨text, ms, ok_of_toOption ht, hr, Members.mem_of_get? hlist⟩

theorem sound_of_decode {name : String} {bytes : Bytes} {x : JsonFormatted}
    (h : decode name bytes = .ok x) : ∀ v ∈ x.controls, v.Sound 125 := by
  obtain ⟨text, ms, _, hr, hm⟩ := read?_of_decode h
  have hms : (Value.object ms).Sound 127 := Value.sound_of_read? hr
  have hcontrols : (Value.array x.controls).Sound 126 := hms.of_mem_object _ hm
  exact hcontrols.of_mem_array

/-- Documents that were read inside a text go into a text again. -/
theorem valid_of_decode {name : String} {bytes : Bytes} {x : JsonFormatted}
    (h : decode name bytes = .ok x) (hn : WithoutDoubles (some bytes)) : x.Valid := by
  obtain ⟨text, ms, ht, hr, hm⟩ := read?_of_decode h
  intro v hv
  have hs := sound_of_decode h v hv
  have hd : ¬v.HasDouble := fun hd ↦ hn bytes text _ rfl ht hr (.object hm (.array hv hd))
  exact ⟨hs.exact hd, hs.depth_le⟩

theorem settles {oid name : String} {hd : Bool} {value : Option Bytes} {x : JsonFormatted}
    (h : (extension oid name).decodeValue hd value = .ok x) (hn : WithoutDoubles value) :
    (extension oid name).Carries hd x := by
  obtain ⟨bytes, hb, h⟩ := bind_eq_ok.1 h
  refine carries (valid_of_decode h ?_) oid name hd
  cases value with
  | none => cases hb
  | some bytes' =>
    cases hb
    exact hn

end JsonFormatted

end LdapCodec
