import LdapCodec.Proofs.Dispatch
import LdapCodec.Proofs.Envelope
import LdapCodec.Proofs.Json.Text
import LdapCodec.Proofs.Payload

namespace LdapCodec

open Ber Json

/-- Beside the given header, the value written for `a` is read as `a`. -/
def Extension.Carries {E H α : Type} (x : Extension E H α) (hd : H) (a : α) : Prop :=
  x.decodeValue hd (x.encodeValue a) = .ok a

section

variable {E H α : Type} [Envelope E H] {x : Extension E H α}

/-- An element that was built here is decoded from the value that is written for it. -/
theorem Extension.decode_toEnvelope_new (hd : H) (a : α) :
    x.decode (x.toEnvelope (.new hd a)) =
      (x.decodeValue hd (x.encodeValue a)).map (⟨hd, ·, x.keep (.of (x.encodeValue a))⟩) := by
  rw [decode_of_oid? (oid?_toEnvelope _), toEnvelope_new, Envelope.value?_make,
    Envelope.header_make]

theorem Extension.decode_toEnvelope {hd : H} {a : α} (h : x.Carries hd a) :
    x.decode (x.toEnvelope (.new hd a)) = .ok ⟨hd, a, x.keep (.of (x.encodeValue a))⟩ := by
  rw [decode_toEnvelope_new, h, Except.map]

end

namespace Extension.Carries

variable {E α : Type} {x : Extension E OperationResult (Option α)} {name : String}
  {read : Option Bytes → Except DecodeError α} {hd : OperationResult}

/-- A result that did not succeed may come without what it tells. -/
theorem failed (hx : x.decodeValue = resultValue name read) (hn : x.encodeValue none = none)
    (hs : hd.code.isSuccess = false) : x.Carries hd none := by
  rw [Carries, hx, hn, resultValue_none hs]

theorem succeeded {a : α} {bytes : Bytes} (hx : x.decodeValue = resultValue name read)
    (hs : x.encodeValue (some a) = some bytes) (hr : read (some bytes) = .ok a) :
    x.Carries hd (some a) := by
  rw [Carries, hx, hs, resultValue_some hr]

end Extension.Carries

theorem Payload.Fits.length_content_lt {e : Element} (h : Fits (some e.encode)) :
    e.content.length < 2 ^ 32 := Nat.lt_trans e.length_content_lt (h _ rfl)

/-- The fields of a sequence are read as they were written. -/
theorem Payload.fields_sequence {es : List Element} (name : String) {min max : Nat}
    (hc : (Element.sequence es).content.length < 2 ^ 32) (hd : Element.depthAll es ≤ 63)
    (hmin : min ≤ es.length) (hmax : es.length ≤ max) :
    fields (some (Element.sequence es).encode) name min max = .ok es := by
  have hdec : Element.decode (Element.sequence es).encode = .ok (.sequence es) := by
    rw [Element.decode_encode hc, if_pos]
    rw [Element.depth_sequence, Element.maxDepth]
    omega
  rw [fields_of_decode hdec, checkCount_eq_ok hmin hmax, ok_bind]

theorem Payload.decode_sequence {α : Type} {decode : List Element → Except DecodeError α} {a : α}
    {es : List Element} (name : String) {min max : Nat}
    (hc : (Element.sequence es).content.length < 2 ^ 32) (hd : Element.depthAll es ≤ 63)
    (hmin : min ≤ es.length) (hmax : es.length ≤ max) (hdec : decode es = .ok a) :
    (fields (some (Element.sequence es).encode) name min max >>= decode) = .ok a := by
  rw [fields_sequence name hc hd hmin hmax, ok_bind, hdec]

theorem ExcludeBranch.decode_fields (baseDns : List String) :
    decode [(Element.sequence (baseDns.map Element.text)).context 0] = check baseDns := by
  have ht : expectField ((Element.sequence (baseDns.map Element.text)).context 0) baseDnsTag
      "Exclude branch base DNs" = .ok () := expectField_eq_ok rfl
  rw [decode, ht, ok_bind, Element.asChildren_context, ok_bind, mapM_textField, ok_bind]

theorem ExcludeBranch.carries {x : ExcludeBranch} (hx : x.Valid) (hd : Bool)
    (hc : (encode x).content.length < 2 ^ 32) : extension.Carries hd x := by
  let bases := (Element.sequence (x.baseDns.map Element.text)).context 0
  have hdepth : Element.depthAll [bases] ≤ 63 := by simp [Element.depthAll, bases]
  have hdec : decode [bases] = .ok x :=
    (decode_fields x.baseDns).trans (check_eq_ok_iff.2 ⟨rfl, hx⟩)
  exact Payload.decode_sequence name hc hdepth (Nat.le_refl 1) (Nat.le_refl 1) hdec

theorem ManageDsaIt.carries (hd : Bool) (x : ManageDsaIt) : extension.Carries hd x := rfl

theorem TransactionSpecification.carries (hd : Bool) (x : TransactionSpecification) :
    extension.Carries hd x := rfl

namespace PasswordPolicy

theorem Warning.decode_encode {w : Warning} (hw : 0 ≤ w.amount) : decode (encode w) = .ok w :=
  decode_eq_ok_iff.2
    ⟨(Element.integer w.amount.toInt).context w.number, Element.asChildren_context 0 _, rfl,
      Element.asInteger_context w.number w.amount, hw⟩

theorem Problem.ofCode_code (p : Problem) : ofCode p.code = .ok p := by
  cases p <;> rfl

theorem readProblem_enumerated (p : Problem) :
    decode.readProblem ((Element.enumerated p.code).context 1) = .ok p := by
  have hp : p.code ≤ 8 := by cases p <;> decide
  have hi : ((Element.enumerated p.code).context 1).asInteger = .ok p.code :=
    Element.asInteger_of_asOctets rfl (by omega) (by omega)
  rw [decode.readProblem, hi, within_ok, ok_bind, Problem.ofCode_code]

/-- Problems are all known, so that only the warning may be refused. -/
theorem decode_fields {α : Type} {write : α → Element} (ht : ∀ w, (write w).tag = warningTag)
    (warning : Option α) (problem : Option Problem) :
    decode ((warning.map write).toList ++
        (problem.map fun p ↦ (Element.enumerated p.code).context 1).toList) =
      (warning.mapM (Warning.decode <| write ·)).map (⟨·, problem⟩) := by
  have hproblem : problem.mapM
      (fun p ↦ decode.readProblem ((Element.enumerated p.code).context 1)) = .ok problem :=
    option_mapM_eq_ok fun p _ ↦ readProblem_enumerated p
  have hlast : ∀ p ∈ problem, ((Element.enumerated p.code).context 1).tag = problemTag :=
    fun _ _ ↦ rfl
  rw [decode, optionalFields_optional (fun w _ ↦ ht w) hlast (by decide), hproblem]
  cases warning.mapM (Warning.decode <| write ·) <;> rfl

theorem carries {x : PasswordPolicy} (hx : x.Valid) (hd : Bool)
    (hc : (encode x).content.length < 2 ^ 32) : extension.Carries hd x := by
  obtain ⟨warning, problem⟩ := x
  let fields := (warning.map Warning.encode).toList ++
    (problem.map fun p ↦ (Element.enumerated p.code).context 1).toList
  have hdepth : Element.depthAll fields ≤ 63 := by
    cases warning <;> cases problem <;> simp [fields, Element.depthAll, Warning.encode]
  have hlength : fields.length ≤ 2 := by
    cases warning <;> cases problem <;> simp [fields]
  have hwarning : warning.mapM (Warning.decode <| Warning.encode ·) = .ok warning :=
    option_mapM_eq_ok fun w hw ↦ Warning.decode_encode (hx w hw)
  have hdec : decode fields = .ok ⟨warning, problem⟩ := by
    rw [decode_fields fun _ ↦ rfl, hwarning]
    rfl
  exact Payload.decode_sequence name hc hdepth (Nat.zero_le _) hlength hdec

end PasswordPolicy

namespace JsonFormatted

/-- Documents that go into a text and come out of it as they are, as documents do that were
read and have no doubles. The text of the control holds them two levels deep. -/
def Valid (x : JsonFormatted) : Prop := ∀ v ∈ x.controls, v.Exact ∧ v.depth ≤ 125

theorem exact_toValue {x : JsonFormatted} (hx : ∀ v ∈ x.controls, v.Exact) : x.toValue.Exact := by
  refine .object (List.pairwise_singleton _ _) ?_
  rw [List.forall_mem_singleton]
  exact .array hx

theorem depth_toValue (x : JsonFormatted) : x.toValue.depth = Value.depthItems x.controls + 2 := by
  simp only [toValue, Value.depth, Value.depthMembers]
  omega

/-- A text of documents is read again, unless they are nested too deep. -/
theorem decode_render {x : JsonFormatted} (hx : ∀ v ∈ x.controls, v.Exact) (name : String) :
    decode name (Utf8.encode x.toValue.render) =
      if Value.depthItems x.controls ≤ 125 then .ok x
      else .error (.decoding s!"{name} value is not valid JSON: not a JSON text") := by
  have hu : (Utf8.decode (Utf8.encode x.toValue.render)).toOption = some x.toValue.render := by
    rw [Utf8.decode_encode]
    rfl
  have hc : checkFields x.toValue fields false name = .ok [("controls", .array x.controls)] := rfl
  have hm : ofMembers name [("controls", .array x.controls)] = .ok x := rfl
  have hd : x.toValue.depth ≤ Value.maxDepth ↔ Value.depthItems x.controls ≤ 125 := by
    rw [depth_toValue, Value.maxDepth]
    omega
  simp only [decode, hu, Option.bind_some, Value.read?_render_eq (exact_toValue hx), hd]
  by_cases hitems : Value.depthItems x.controls ≤ 125
  · simp only [if_pos hitems, hc, hm, ok_bind]
  · simp only [if_neg hitems]

theorem decodeValue_encodeValue {x : JsonFormatted} (hx : ∀ v ∈ x.controls, v.Exact)
    (oid name : String) (hd : Bool) :
    (extension oid name).decodeValue hd ((extension oid name).encodeValue x) =
      if Value.depthItems x.controls ≤ 125 then .ok x
      else .error (.decoding s!"{name} value is not valid JSON: not a JSON text") := by
  simp only [extension, Payload.require, ok_bind, decode_render hx]

theorem carries {x : JsonFormatted} (hx : x.Valid) (oid name : String) (hd : Bool) :
    (extension oid name).Carries hd x := by
  have hitems : Value.depthItems x.controls ≤ 125 :=
    Value.depthItems_le_iff.2 fun v hv ↦ (hx v hv).2
  rw [Extension.Carries, decodeValue_encodeValue fun v hv ↦ (hx v hv).1, if_pos hitems]

end JsonFormatted

def KnownControl.Exact : KnownControl → Prop
  | jsonRequest x => x.payload.Valid
  | jsonResponse x => x.payload.Valid
  | _ => True

theorem BackupQuery.decode_fields (baseDn : String) :
    decode [(Element.text baseDn).context 0] = .ok ⟨baseDn⟩ := by
  have ht : expectField ((Element.text baseDn).context 0) (.contextSpecific false 0)
      "Backup compatibility base DN" = .ok () := expectField_eq_ok rfl
  rw [decode, ht, ok_bind, Element.asText_context, within_ok, ok_bind]

theorem BackupQuery.carries (hd : Unit) (x : BackupQuery)
    (hc : (encode x).content.length < 2 ^ 32) : extension.Carries hd x := by
  have hdepth : Element.depthAll [(Element.text x.baseDn).context 0] ≤ 63 := by
    simp [Element.depthAll]
  exact Payload.decode_sequence name hc hdepth (Nat.le_refl 1) (Nat.le_refl 1)
    (decode_fields x.baseDn)

theorem StartTransaction.carries (hd : Unit) (x : StartTransaction) : extension.Carries hd x := rfl

/-- A transaction is kept unless a flag says otherwise. -/
theorem EndTransaction.decode_fields (commit : Option Bool) (id : Bytes) :
    decode ((commit.map Element.boolean).toList ++ [.octetString id]) =
      .ok ⟨commit.getD true, id⟩ := by
  cases commit with
  | none => rfl
  | some flag =>
    have ht : expectField (.boolean flag) .boolean "Transaction commit flag" = .ok () :=
      expectField_eq_ok rfl
    have hid : decode.readId flag (.octetString id) = .ok ⟨flag, id⟩ := rfl
    simp only [decode, Option.map_some, Option.toList_some, List.singleton_append, ht, ok_bind,
      Element.asBoolean_boolean, hid, Option.getD_some]

theorem EndTransaction.carries (hd : Unit) (x : EndTransaction)
    (hc : (encode x).content.length < 2 ^ 32) : extension.Carries hd x := by
  obtain ⟨commit, id⟩ := x
  let flags := if commit then [] else [Element.boolean false]
  have hdepth : Element.depthAll (flags ++ [.octetString id]) ≤ 63 := by
    cases commit <;> simp [flags, Element.depthAll]
  have hlength : (flags ++ [Element.octetString id]).length ≤ 2 := by
    cases commit <;> simp [flags]
  have hdec : decode (flags ++ [.octetString id]) = .ok ⟨commit, id⟩ := by
    cases commit with
    | false => exact decode_fields (some false) id
    | true => exact decode_fields none id
  exact Payload.decode_sequence name hc hdepth (by simp) hlength hdec

namespace GeneratePassword

variable {x : GeneratePassword} {next : Nat} {rest : List Element}

theorem orderedFields_selection (selection : PolicySelection) :
    ∃ later ≤ 1, orderedFields name readField 0 standard (encodeSelection selection ++ rest) =
      orderedFields name readField later { standard with selection } rest := by
  cases selection with
  | default => exact ⟨0, Nat.zero_le 1, rfl⟩
  | policy dn =>
    refine ⟨1, Nat.le_refl 1, orderedFields_cons ?_ (Nat.le_refl 0)⟩
    exact readField_eq_ok_iff.2 (.policy rfl (Element.asText_context 1 dn))
  | target dn =>
    refine ⟨1, Nat.le_refl 1, orderedFields_cons ?_ (Nat.le_refl 0)⟩
    exact readField_eq_ok_iff.2 (.target rfl (Element.asText_context 2 dn))

theorem readField_number {v : Int} (hl : -(2 ^ 63) ≤ v) (hu : v < 2 ^ 63)
    (x : GeneratePassword) :
    readField x ((Element.integer v).context 3) =
      ((checkPasswords v).map fun w ↦ { x with passwords := w }).map (1, ·) ∧
    readField x ((Element.integer v).context 4) =
      ((checkAttempts v).map fun w ↦ { x with attempts := w }).map (2, ·) := by
  have h3 : ((Element.integer v).context 3).asInteger = .ok v :=
    Element.asInteger_of_asOctets rfl hl hu
  have h4 : ((Element.integer v).context 4).asInteger = .ok v :=
    Element.asInteger_of_asOctets rfl hl hu
  constructor
  · simp only [readField, Element.tag_context_integer, Tag.contextSpecific_inj, h3, true_and,
      within_ok, ok_bind]
    cases checkPasswords v <;> rfl
  · simp only [readField, Element.tag_context_integer, Tag.contextSpecific_inj, h4, true_and,
      within_ok, ok_bind]
    cases checkAttempts v <;> rfl

/-- Fields that were left out have their default value. -/
theorem decode_fields (selection : PolicySelection) {passwords attempts : Option Int}
    (hp : ∀ v ∈ passwords, -(2 ^ 63) ≤ v ∧ v < 2 ^ 63)
    (ha : ∀ v ∈ attempts, -(2 ^ 63) ≤ v ∧ v < 2 ^ 63) :
    decode (encodeSelection selection ++
        (passwords.map fun v ↦ (Element.integer v).context 3).toList ++
        (attempts.map fun v ↦ (Element.integer v).context 4).toList) = (do
      let passwords ← checkPasswords (passwords.getD defaultPasswords.toInt)
      let attempts ← checkAttempts (attempts.getD defaultAttempts.toInt)
      .ok ⟨selection, passwords, attempts⟩) := by
  have hattempts (x : GeneratePassword) (hx : x.attempts = defaultAttempts) {next : Nat}
      (hn : next ≤ 2) :
      orderedFields name readField next x
          (attempts.map fun v ↦ (Element.integer v).context 4).toList =
        (checkAttempts (attempts.getD defaultAttempts.toInt)).map ({ x with attempts := · }) := by
    obtain ⟨_, -, hr⟩ := orderedFields_optional name
      (fun v hv ↦ (readField_number (ha v hv).1 (ha v hv).2 x).2) hn []
    rw [List.append_nil] at hr
    rw [hr]
    cases attempts with
    | none =>
      cases x
      cases hx
      rfl
    | some v =>
      rw [Option.elim_some, Option.getD_some]
      cases checkAttempts v <;> rfl
  obtain ⟨next, hn, hs⟩ := orderedFields_selection selection
  rw [decode, List.append_assoc, hs]
  obtain ⟨later, hl, hr⟩ := orderedFields_optional name
    (fun v hv ↦ (readField_number (hp v hv).1 (hp v hv).2 { standard with selection }).1) hn
    (attempts.map fun v ↦ (Element.integer v).context 4).toList
  rw [hr]
  cases passwords with
  | none =>
    have hdefault : checkPasswords defaultPasswords.toInt = .ok defaultPasswords := rfl
    rw [Option.elim_none, ok_bind, Option.getD_none, hdefault, ok_bind, hattempts _ rfl hl]
    cases checkAttempts (attempts.getD defaultAttempts.toInt) <;> rfl
  | some v =>
    rw [Option.elim_some, Option.getD_some]
    cases checkPasswords v with
    | error err => rfl
    | ok w =>
      rw [Except.map, ok_bind, ok_bind, hattempts _ rfl hl]
      cases checkAttempts (attempts.getD defaultAttempts.toInt) <;> rfl

theorem decode_encodeFields (hx : x.Valid) : decode (encodeFields x) = .ok x := by
  obtain ⟨selection, passwords, attempts⟩ := x
  obtain ⟨hp, ha⟩ := hx
  let spelled (w default : Int32) : Option Int := if w = default then none else some w.toInt
  have hfits (w default : Int32) : ∀ v ∈ spelled w default, -(2 ^ 63) ≤ v ∧ v < 2 ^ 63 := by
    intro v hv
    have hw := Int32.le_toInt w
    have hw' := Int32.toInt_lt w
    obtain ⟨-, hv⟩ : w ≠ default ∧ w.toInt = v := by simpa [spelled] using hv
    omega
  have hgetD (w default : Int32) : (spelled w default).getD default.toInt = w.toInt := by
    by_cases hd : w = default <;> simp [spelled, hd]
  have helement (w default : Int32) (number : UInt32) :
      ((spelled w default).map fun v ↦ (Element.integer v).context number).toList =
        if w = default then [] else [(Element.integer w.toInt).context number] := by
    by_cases hd : w = default <;> simp [spelled, hd]
  have h := decode_fields selection (hfits passwords defaultPasswords)
    (hfits attempts defaultAttempts)
  rwa [helement, helement, hgetD, hgetD, checkPasswords, checkAttempts,
    checkLeast_eq_ok_iff.2 ⟨rfl, hp⟩, ok_bind, checkLeast_eq_ok_iff.2 ⟨rfl, ha⟩, ok_bind] at h

theorem depth_encodeFields (x : GeneratePassword) : Element.depthAll (encodeFields x) = 0 := by
  rw [encodeFields, Element.depthAll_append, Element.depthAll_append]
  cases x.selection <;> split <;> split <;> simp [encodeSelection, Element.depthAll]

theorem length_encodeFields_le (x : GeneratePassword) : (encodeFields x).length ≤ 3 := by
  rw [encodeFields]
  cases x.selection <;> split <;> split <;> simp [encodeSelection]

/-- A request for the defaults has no value, and no fields either. -/
theorem length_content_lt (hf : Payload.Fits (encodeValue x)) :
    (Element.sequence (encodeFields x)).content.length < 2 ^ 32 := by
  unfold encodeValue at hf
  dsimp only at hf
  split at hf
  · rename_i he
    rw [he]
    decide
  · exact hf.length_content_lt

theorem carries (hx : x.Valid) (hd : Unit)
    (hc : (Element.sequence (encodeFields x)).content.length < 2 ^ 32) :
    extension.Carries hd x := by
  have hdec := decode_encodeFields hx
  simp only [Extension.Carries, extension, encodeValue]
  by_cases he : encodeFields x = []
  · rw [he] at hdec
    rw [if_pos he]
    exact hdec
  · rw [if_neg he]
    have hdepth : Element.depthAll (encodeFields x) ≤ 63 := by
      rw [depth_encodeFields]
      exact Nat.zero_le _
    exact Payload.decode_sequence name hc hdepth (Nat.zero_le _) (length_encodeFields_le x) hdec

end GeneratePassword

namespace GeneratedPassword

theorem depth_encode_le (x : GeneratedPassword) : (encode x).depth ≤ 2 := by
  rw [encode]
  split <;> simp [Element.depthAll]

/-- An item without a list of errors is one with an empty list. -/
theorem decode_fields (password : String) (attempted : Bool) (errors : Option (List String)) :
    decode (.sequence ([.text password, .boolean attempted] ++
        (errors.map fun es ↦ (Element.sequence (es.map Element.text)).context 0).toList)) =
      .ok ⟨password, attempted, errors.getD []⟩ := by
  have hs : ∀ es, expectField (.sequence es) .sequence what = .ok () :=
    fun _ ↦ expectField_eq_ok rfl
  have hb : expectField (.boolean attempted) .boolean "Validation attempted flag" = .ok () :=
    expectField_eq_ok rfl
  have hp : textField (.text password) "Generated password value" = .ok password :=
    textField_text password
  cases errors with
  | none =>
    have hc : checkCount [.text password, .boolean attempted] 2 3 what = .ok () := rfl
    simp [decode, hs, hb, hp, hc]
  | some errors =>
    let listed := (Element.sequence (errors.map Element.text)).context 0
    have hc : checkCount [.text password, .boolean attempted, listed] 2 3 what = .ok () := rfl
    have ht : expectField listed (.contextSpecific true 0) "Validation errors" = .ok () :=
      expectField_eq_ok rfl
    have hm : (errors.map Element.text).mapM (textField · "Validation error") = .ok errors :=
      mapM_textField errors
    simp only [decode, hs, Element.asChildren_sequence, List.cons_append, List.nil_append,
      Option.map_some, Option.toList_some, hc, hp, hb, ht, hm, Element.asBoolean_boolean,
      Element.asChildren_context, ok_bind, listed, Option.getD_some]

theorem decode_encode (x : GeneratedPassword) : decode (encode x) = .ok x := by
  obtain ⟨password, attempted, errors⟩ := x
  by_cases he : errors = []
  · simpa [encode, he] using decode_fields password attempted none
  · simpa [encode, he] using decode_fields password attempted (some errors)

end GeneratedPassword

namespace GeneratedPasswords

theorem decode_fields (policyDn : String) (items : List Element) :
    decode [.text policyDn, .sequence items] =
      items.mapM GeneratedPassword.decode >>= check policyDn := by
  have ht : expectField (.sequence items) .sequence "Generated passwords" = .ok () :=
    expectField_eq_ok rfl
  simp only [decode, textField_text, ht, Element.asChildren_sequence, ok_bind]

theorem carries_some {x : GeneratedPasswords} (hx : x.Valid) (hd : OperationResult)
    (hc : (encode x).content.length < 2 ^ 32) : extension.Carries hd (some x) := by
  obtain ⟨policyDn, passwords⟩ := x
  let listed := Element.sequence (passwords.map GeneratedPassword.encode)
  have hdepth : Element.depthAll [.text policyDn, listed] ≤ 63 := by
    have hp : Element.depthAll (passwords.map GeneratedPassword.encode) ≤ 2 := by
      rw [Element.depthAll_le_iff, List.forall_mem_map]
      exact fun p _ ↦ p.depth_encode_le
    simp only [Element.depthAll, Element.depth_text, Element.depth_sequence, listed]
    omega
  have hm : (passwords.map GeneratedPassword.encode).mapM GeneratedPassword.decode =
      .ok passwords := mapM_map_eq_ok fun p _ ↦ p.decode_encode
  have hcheck : check policyDn passwords = .ok ⟨policyDn, passwords⟩ :=
    check_eq_ok_iff.2 ⟨rfl, hx⟩
  have hdec : decode [.text policyDn, listed] = .ok ⟨policyDn, passwords⟩ := by
    rw [decode_fields, hm, ok_bind, hcheck]
  exact .succeeded decodeValue_eq rfl
    (Payload.decode_sequence name hc hdepth (Nat.le_refl 2) (Nat.le_refl 2) hdec)

end GeneratedPasswords

namespace BackupDescriptor

theorem decode_fields (descriptor : Bytes) (properties : Option (List String)) :
    decode ([(Element.octetString descriptor).context 0] ++
        (properties.map fun ps ↦ (Element.sequence (ps.map Element.text)).context 1).toList) =
      .ok ⟨descriptor, properties.getD []⟩ := by
  have ht : expectField ((Element.octetString descriptor).context 0) (.contextSpecific false 0)
      "Backup compatibility descriptor" = .ok () := expectField_eq_ok rfl
  have ho : optionalField (.contextSpecific true 1) decode.readProperties
      (properties.map fun ps ↦ (Element.sequence (ps.map Element.text)).context 1).toList =
        .ok (properties, []) := by
    refine optionalField_last fun ps _ ↦ ⟨rfl, ?_⟩
    rw [decode.readProperties, Element.asChildren_context, ok_bind, mapM_textField]
  simp only [decode, List.singleton_append, ht, Element.asOctets_context, ho, noMoreFields, ok_bind]

theorem carries_some (x : BackupDescriptor) (hd : OperationResult)
    (hc : (encode x).content.length < 2 ^ 32) : extension.Carries hd (some x) := by
  obtain ⟨descriptor, properties⟩ := x
  let first := (Element.octetString descriptor).context 0
  let listed := (Element.sequence (properties.map Element.text)).context 1
  let rest := if properties = [] then [] else [listed]
  have hdepth : Element.depthAll ([first] ++ rest) ≤ 63 := by
    by_cases hp : properties = [] <;> simp [first, listed, rest, hp, Element.depthAll]
  have hlength : ([first] ++ rest).length ≤ 2 := by
    by_cases hp : properties = [] <;> simp [rest, hp]
  have hdec : decode ([first] ++ rest) = .ok ⟨descriptor, properties⟩ := by
    by_cases hp : properties = []
    · simpa [rest, hp] using decode_fields descriptor none
    · simpa [rest, hp] using decode_fields descriptor (some properties)
  exact .succeeded decodeValue_eq rfl
    (Payload.decode_sequence name hc hdepth (show 1 ≤ _ by simp) hlength hdec)

end BackupDescriptor

theorem MissingChangelog.decode_fields (message : Option String) :
    decode (message.map fun m ↦ (Element.text m).context 0).toList = .ok ⟨message⟩ := by
  have hmessage : optionalField messageTag
      (fun e ↦ within "Missing changelog message" e.asText)
      (message.map fun m ↦ (Element.text m).context 0).toList = .ok (message, []) :=
    optionalField_last fun m _ ↦ ⟨rfl, by simp⟩
  simp only [decode, hmessage, noMoreFields, ok_bind]

theorem MissingChangelog.carries (hd : Unit) (x : MissingChangelog)
    (hc : (encode x).content.length < 2 ^ 32) : extension.Carries hd x := by
  obtain ⟨message⟩ := x
  let fields := (message.map fun m ↦ (Element.text m).context 0).toList
  have hdepth : Element.depthAll fields ≤ 63 := by
    cases message <;> simp [fields, Element.depthAll]
  have hlength : fields.length ≤ 1 := by
    cases message <;> simp [fields]
  exact Payload.decode_sequence name hc hdepth (Nat.zero_le _) hlength (decode_fields message)

end LdapCodec
