import LdapCodec.Proofs.Encoded
import LdapCodec.Proofs.Meaning

namespace LdapCodec

open Ber Json
open Envelope (oid? value? header withValue)

namespace Json.Members

variable {key k : String} {v : Option Value} {fields : List (String × Option Value)}
  {allowed : List String}

def insert? (key : String) (v : Option Value) (ms : Members) : Members :=
  v.elim ms (ms.insert key ·)

def ofFields (fields : List (String × Option Value)) : Members :=
  fields.foldr (fun f ms ↦ ms.insert? f.1 f.2) []

theorem get?_insert? (ms : Members) :
    (ms.insert? key v).get? k = if k = key then v.or (ms.get? k) else ms.get? k := by
  cases v <;> simp [insert?]

theorem get?_ofFields_of_notMem (h : k ∉ fields.map Prod.fst) :
    (ofFields fields).get? k = none := by
  induction fields with
  | nil => rfl
  | cons f fields ih =>
    rw [List.map_cons, List.mem_cons, not_or] at h
    rw [ofFields, List.foldr_cons, get?_insert?, if_neg h.1]
    exact ih h.2

theorem get?_ofFields (hn : (fields.map Prod.fst).Nodup) (h : (k, v) ∈ fields) :
    (ofFields fields).get? k = v := by
  induction fields with
  | nil => cases h
  | cons f fields ih =>
    rw [List.map_cons, List.nodup_cons] at hn
    rw [ofFields, List.foldr_cons, get?_insert?]
    rcases List.mem_cons.1 h with rfl | h
    · rw [if_pos rfl, ← ofFields, get?_ofFields_of_notMem hn.1, Option.or_none]
    · have hk : k ≠ f.1 := by
        rintro rfl
        exact hn.1 (List.mem_map.2 ⟨_, h, rfl⟩)
      rw [if_neg hk]
      exact ih hn.2 h

theorem unknown?_ofFields (h : ∀ k ∈ fields.map Prod.fst, k ∈ allowed) :
    (ofFields fields).unknown? allowed = none := by
  induction fields with
  | nil => rfl
  | cons f fields ih =>
    obtain ⟨key, v⟩ := f
    rw [List.map_cons, List.forall_mem_cons] at h
    cases v with
    | none => exact ih h.2
    | some v => exact unknown?_insert (ih h.2) h.1 v

end Json.Members

/-- The fields of a value are read alike from octets and from an object, whatever envelope
they come with: both readers succeed with the same, or fail for reasons of one kind. -/
structure Extension.FormsAgree {E H α F : Type} [Envelope E H] (x : Extension E H α)
    (elements : F → List Element) (members : F → List (String × Option Value)) : Prop where
  agree : ∀ (f : F) (bytes : Bytes), Element.decode bytes = .ok (.sequence (elements f)) →
    ∀ (e : E) (strict : Bool),
      verdict ((x.decode (withValue e (some bytes))).map Typed.bare) =
        verdict
          ((x.ofJson e (.object (Members.ofFields (members f))) strict).map Typed.bare)
  spelled : ∀ f, (Element.sequence (elements f)).content.length < 2 ^ 32 →
    Element.decode (Element.sequence (elements f)).encode = .ok (.sequence (elements f))

theorem Extension.FormsAgree.of_fields {E H α F : Type} [Envelope E H] {x : Extension E H α}
    {form : Structured α} {elements : F → List Element}
    {members : F → List (String × Option Value)} (name : String) (min max : Nat)
    (decode : List Element → Except DecodeError α)
    (hx : ∀ hd bytes, x.decodeValue hd (some bytes) =
      Payload.fields (some bytes) name min max >>= decode)
    (hf : x.structured = some form)
    (hlength : ∀ f, min ≤ (elements f).length ∧ (elements f).length ≤ max)
    (hdepth : ∀ f, Element.depthAll (elements f) ≤ 63)
    (hkeys : ∀ f, (members f).map Prod.fst = form.fields) (hn : form.fields.Nodup)
    (hread : ∀ f strict ms, (∀ m ∈ members f, ms.get? m.1 = m.2) →
      verdict (decode (elements f)) = verdict (form.read strict ms)) :
    x.FormsAgree elements members where
  agree f bytes hbytes e strict := by
    by_cases ho : oid? e = some x.oid
    · have ho' : oid? (withValue e (some bytes)) = some x.oid := by
        rw [Envelope.oid?_withValue, ho]
      have hvalue : x.decodeValue (header e) (some bytes) = decode (elements f) := by
        rw [hx, Payload.fields_of_decode hbytes, checkCount_eq_ok (hlength f).1 (hlength f).2]
        rfl
      have hfields : checkFields (.object (Members.ofFields (members f))) form.fields strict
          x.name = .ok (Members.ofFields (members f)) :=
        checkFields_object strict x.name (Members.unknown?_ofFields fun k hk ↦ hkeys f ▸ hk)
      have hmembers := hread f strict (Members.ofFields (members f)) fun m hm ↦
        Members.get?_ofFields (by rwa [hkeys f]) hm
      simp only [decode_of_oid? ho', Envelope.header_withValue, Envelope.value?_withValue, hvalue,
        ofJson, hf, checkOid_eq_ok_iff.2 ho, hfields, ok_bind, bind_ok_eq_map, verdict_map,
        hmembers]
      cases verdict (form.read strict (Members.ofFields (members f))) <;> rfl
    · have ho' : oid? (withValue e (some bytes)) ≠ some x.oid := by
        rwa [Envelope.oid?_withValue]
      obtain ⟨m, hm⟩ := checkOid_eq_error ho x.name
      obtain ⟨m', hm'⟩ := checkOid_eq_error ho' x.name
      simp only [Extension.decode, ofJson, hf, hm, hm']
      rfl
  spelled f hl := by
    rw [Element.decode_encode hl, if_pos]
    have hd := hdepth f
    rw [Element.depth_sequence, Element.maxDepth]
    omega

/-- A value of a result stands for some payload. -/
theorem Extension.FormsAgree.of_resultValue {E α F : Type} [Envelope E OperationResult]
    {x : Extension E OperationResult (Option α)} {form : Structured (Option α)}
    {elements : F → List Element} {members : F → List (String × Option Value)} (name : String)
    (min max : Nat) {decode : List Element → Except DecodeError α}
    (hx : x.decodeValue = resultValue name fun value ↦
      Payload.fields value name min max >>= decode)
    (hf : x.structured = some form)
    (hlength : ∀ f, min ≤ (elements f).length ∧ (elements f).length ≤ max)
    (hdepth : ∀ f, Element.depthAll (elements f) ≤ 63)
    (hkeys : ∀ f, (members f).map Prod.fst = form.fields) (hn : form.fields.Nodup)
    (hread : ∀ f strict ms, (∀ m ∈ members f, ms.get? m.1 = m.2) →
      verdict ((decode (elements f)).map some) = verdict (form.read strict ms)) :
    x.FormsAgree elements members := by
  refine .of_fields name min max (fun es ↦ (decode es).map some) (fun hd bytes ↦ ?_) hf hlength
    hdepth hkeys hn hread
  rw [hx, resultValue, bind_ok_eq_map]
  cases Payload.fields (some bytes) name min max <;> rfl

theorem Members.optional_count {ms : Members} {key : String} {o : Option Int64}
    (h : ms.get? key = o.map fun v ↦ .ofInt v.toInt) :
    ms.optional Value.asInt64? key = some (o.map Int64.toInt) :=
  Members.optional_map _ _ h fun v _ ↦
    ⟨by simp [Value.ofInt], Value.asInt64?_ofInt v.le_toInt v.toInt_lt⟩

theorem bounds_of_mem_map_toInt (o : Option Int64) :
    ∀ v ∈ o.map Int64.toInt, -(2 ^ 63) ≤ v ∧ v < 2 ^ 63 := by
  intro v hv
  obtain ⟨w, -, rfl⟩ := Option.map_eq_some_iff.1 hv
  exact ⟨w.le_toInt, w.toInt_lt⟩

namespace PolicySelection

def policyDn : PolicySelection → Option String
  | policy dn => some dn
  | _ => none

def targetDn : PolicySelection → Option String
  | target dn => some dn
  | _ => none

theorem select_dns (s : PolicySelection) :
    GeneratePassword.select s.policyDn s.targetDn = .ok s := by
  cases s <;> rfl

end PolicySelection

namespace GeneratePassword

structure Spelled where
  selection : PolicySelection
  passwords : Option Int64
  attempts : Option Int64

def Spelled.elements (f : Spelled) : List Element :=
  encodeSelection f.selection ++
    (f.passwords.map fun v ↦ (Element.integer v.toInt).context 3).toList ++
    (f.attempts.map fun v ↦ (Element.integer v.toInt).context 4).toList

def Spelled.members (f : Spelled) : List (String × Option Value) :=
  [("password-policy-dn", f.selection.policyDn.map .string),
    ("target-entry-dn", f.selection.targetDn.map .string),
    ("number-of-passwords", f.passwords.map fun v ↦ .ofInt v.toInt),
    ("number-of-validation-attempts", f.attempts.map fun v ↦ .ofInt v.toInt)]

theorem formsAgree : extension.FormsAgree Spelled.elements Spelled.members := by
  refine .of_fields name 0 3 decode (fun _ _ ↦ rfl) rfl
    (fun f ↦ ⟨Nat.zero_le _, ?_⟩) (fun f ↦ ?_) (fun _ ↦ rfl) (by decide) fun f strict ms h ↦ ?_
  · obtain ⟨selection, passwords, attempts⟩ := f
    cases selection <;> cases passwords <;> cases attempts <;>
      simp [Spelled.elements, encodeSelection]
  · obtain ⟨selection, passwords, attempts⟩ := f
    cases selection <;> cases passwords <;> cases attempts <;>
      simp [Spelled.elements, encodeSelection, Element.depthAll]
  · simp only [Spelled.members, List.forall_mem_cons] at h
    obtain ⟨hpolicy, htarget, hpasswords, hattempts, -⟩ := h
    have hdecode := decode_fields f.selection (bounds_of_mem_map_toInt f.passwords)
      (bounds_of_mem_map_toInt f.attempts)
    simp only [Option.map_map] at hdecode
    simp only [structured, Members.optional_text hpolicy, Members.optional_text htarget,
      Members.optional_count hpasswords, Members.optional_count hattempts, orInvalid_some, ok_bind,
      PolicySelection.select_dns]
    exact congrArg verdict hdecode

end GeneratePassword

namespace ExcludeBranch

def elements (baseDns : List String) : List Element :=
  [(Element.sequence (baseDns.map Element.text)).context 0]

def members (baseDns : List String) : List (String × Option Value) :=
  [("base-dns", some (.ofTexts baseDns))]

theorem formsAgree : extension.FormsAgree elements members := by
  refine .of_fields name 1 1 decode (fun _ _ ↦ rfl) rfl
    (fun _ ↦ ⟨Nat.le_refl 1, Nat.le_refl 1⟩) (fun _ ↦ ?_) (fun _ ↦ rfl) (by decide)
    fun baseDns strict ms h ↦ ?_
  · simp [elements, Element.depthAll]
  · have hb := (Members.required_eq Value.asTexts? (h _ List.mem_cons_self)).trans
      (Value.asTexts?_ofTexts baseDns)
    simp only [structured, hb, orInvalid_some, ok_bind]
    exact congrArg verdict (decode_fields baseDns)

end ExcludeBranch

namespace BackupQuery

def elements (baseDn : String) : List Element := [(Element.text baseDn).context 0]

def members (baseDn : String) : List (String × Option Value) :=
  [("base-dn", some (.string baseDn))]

theorem formsAgree : extension.FormsAgree elements members := by
  refine .of_fields name 1 1 decode (fun _ _ ↦ rfl) rfl
    (fun _ ↦ ⟨Nat.le_refl 1, Nat.le_refl 1⟩) (fun _ ↦ ?_) (fun _ ↦ rfl) (by decide)
    fun baseDn strict ms h ↦ ?_
  · simp [elements, Element.depthAll]
  · have hb := Members.required_text (h _ List.mem_cons_self)
    simp only [structured, hb, orInvalid_some, ok_bind]
    exact congrArg verdict (decode_fields baseDn)

end BackupQuery

namespace EndTransaction

def elements (f : Option Bool × Bytes) : List Element :=
  (f.1.map Element.boolean).toList ++ [.octetString f.2]

def members (f : Option Bool × Bytes) : List (String × Option Value) :=
  [("transaction-id-base64", some (.string (Base64.encode f.2))), ("commit", f.1.map .bool)]

theorem formsAgree : extension.FormsAgree elements members := by
  refine .of_fields name 1 2 decode (fun _ _ ↦ rfl) rfl
    (fun f ↦ ?_) (fun f ↦ ?_) (fun _ ↦ rfl) (by decide) fun f strict ms h ↦ ?_
  · cases hf : f.1 <;> simp [elements, hf]
  · cases hf : f.1 <;> simp [elements, hf, Element.depthAll]
  · simp only [members, List.forall_mem_cons] at h
    obtain ⟨hid, hcommit, -⟩ := h
    have hc := Members.defaulted_map Value.asBool? true hcommit fun _ _ ↦ rfl
    simp only [structured, Members.required_text hid, hc, decodeBase64_encode, orInvalid_some,
      ok_bind]
    exact congrArg verdict (decode_fields f.1 f.2)

end EndTransaction

namespace MissingChangelog

def elements (message : Option String) : List Element :=
  (message.map fun m ↦ (Element.text m).context 0).toList

def members (message : Option String) : List (String × Option Value) :=
  [("message", message.map .string)]

theorem formsAgree : extension.FormsAgree elements members := by
  refine .of_fields name 0 1 decode (fun _ _ ↦ rfl) rfl
    (fun f ↦ ?_) (fun f ↦ ?_) (fun _ ↦ rfl) (by decide) fun message strict ms h ↦ ?_
  · cases f <;> simp [elements]
  · cases f <;> simp [elements, Element.depthAll]
  · have hm := Members.optional_text (h _ List.mem_cons_self)
    simp only [structured, hm, orInvalid_some, ok_bind]
    exact congrArg verdict (decode_fields message)

end MissingChangelog

namespace BackupDescriptor

def elements (f : Bytes × Option (List String)) : List Element :=
  [(Element.octetString f.1).context 0] ++
    (f.2.map fun ps ↦ (Element.sequence (ps.map Element.text)).context 1).toList

def members (f : Bytes × Option (List String)) : List (String × Option Value) :=
  [("descriptor-base64", some (.string (Base64.encode f.1))), ("properties", f.2.map .ofTexts)]

theorem formsAgree : extension.FormsAgree elements members := by
  refine .of_resultValue name 1 2 decodeValue_eq rfl
    (fun f ↦ ?_) (fun f ↦ ?_) (fun _ ↦ rfl) (by decide) fun f strict ms h ↦ ?_
  · cases hf : f.2 <;> simp [elements, hf]
  · cases hf : f.2 <;> simp [elements, hf, Element.depthAll]
  · simp only [members, List.forall_mem_cons] at h
    obtain ⟨hdescriptor, hproperties, -⟩ := h
    have hp := Members.defaulted_map Value.asTexts? [] hproperties
      fun ps _ ↦ Value.asTexts?_ofTexts ps
    simp only [structured, Members.required_text hdescriptor, hp, decodeBase64_encode,
      orInvalid_some, ok_bind]
    exact congrArg (verdict <| Except.map some ·) (decode_fields f.1 f.2)

end BackupDescriptor

namespace GeneratedPassword

structure Spelled where
  password : String
  attempted : Bool
  errors : Option (List String)

namespace Spelled

def element (f : Spelled) : Element :=
  .sequence ([.text f.password, .boolean f.attempted] ++
    (f.errors.map fun es ↦ (Element.sequence (es.map Element.text)).context 0).toList)

def members (f : Spelled) : List (String × Option Value) :=
  [("password", some (.string f.password)), ("validation-attempted", some (.bool f.attempted)),
    ("validation-errors", f.errors.map .ofTexts)]

def value (f : Spelled) : Value := .object (Members.ofFields f.members)

def meaning (f : Spelled) : GeneratedPassword := ⟨f.password, f.attempted, f.errors.getD []⟩

theorem depth_element_le (f : Spelled) : f.element.depth ≤ 2 := by
  cases he : f.errors <;> simp [element, he, Element.depthAll]

theorem checkFields_value (f : Spelled) (strict : Bool) :
    (checkFields f.value fields strict what).map (fun _ ↦ ()) = .ok () := by
  have hk : (Members.ofFields f.members).unknown? fields = none :=
    Members.unknown?_ofFields fun _ hk ↦ hk
  rw [value, checkFields_object strict what hk]
  rfl

theorem ofValue?_value (f : Spelled) : ofValue? f.value = some f.meaning := by
  have hget {k : String} {v : Option Value} (hm : (k, v) ∈ f.members) :
      (Members.ofFields f.members).get? k = v := Members.get?_ofFields (by simp [members]) hm
  have hp := Members.required_text (hget (k := "password") List.mem_cons_self)
  have ha := Members.required_eq Value.asBool?
    (hget (k := "validation-attempted") (List.mem_cons_of_mem _ List.mem_cons_self))
  have he := Members.defaulted_map Value.asTexts? []
    (hget (k := "validation-errors")
      (List.mem_cons_of_mem _ (List.mem_cons_of_mem _ List.mem_cons_self)))
    fun es _ ↦ Value.asTexts?_ofTexts es
  simp only [ofValue?, value, Value.asMembers?, hp, ha, he, Value.asBool?, Option.bind_eq_bind,
    Option.bind_some]
  rfl

end Spelled

end GeneratedPassword

namespace GeneratedPasswords

open GeneratedPassword (Spelled)

def elements (f : String × List Spelled) : List Element :=
  [.text f.1, .sequence (f.2.map Spelled.element)]

def members (f : String × List Spelled) : List (String × Option Value) :=
  [("password-policy-dn", some (.string f.1)),
    ("generated-passwords", some (.array (f.2.map Spelled.value)))]

theorem formsAgree : extension.FormsAgree elements members := by
  refine .of_resultValue name 2 2 decodeValue_eq rfl
    (fun _ ↦ ⟨Nat.le_refl 2, Nat.le_refl 2⟩) (fun f ↦ ?_) (fun _ ↦ rfl) (by decide)
    fun f strict ms h ↦ ?_
  · have hitems : Element.depthAll (f.2.map Spelled.element) ≤ 2 := by
      rw [Element.depthAll_le_iff, List.forall_mem_map]
      exact fun item _ ↦ item.depth_element_le
    simp only [elements, Element.depthAll, Element.depth_text, Element.depth_sequence]
    omega
  · simp only [members, List.forall_mem_cons] at h
    obtain ⟨hdn, hitems, -⟩ := h
    have hcheck : checkItems strict ms = .ok () :=
      checkItems_eq_ok hitems (List.forall_mem_map.2 fun item _ ↦ item.checkFields_value strict)
    have hread : (f.2.map Spelled.element).mapM GeneratedPassword.decode =
        .ok (f.2.map Spelled.meaning) := by
      rw [mapM_eq_ok_iff, List.forall₂_map_left_iff, List.forall₂_map_right_iff, List.forall₂_same]
      exact fun item _ ↦ GeneratedPassword.decode_fields _ _ _
    have hvalues : (f.2.map Spelled.value).mapM GeneratedPassword.ofValue? =
        some (f.2.map Spelled.meaning) := mapM_map_eq_some fun item _ ↦ item.ofValue?_value
    simp only [structured, hcheck, Members.required_text hdn,
      Members.required_eq Value.asItems? hitems, Value.asItems?, hvalues, orInvalid_some, ok_bind,
      elements, decode_fields, hread, bind_ok_eq_map]

end GeneratedPasswords

namespace PasswordPolicy

inductive Warning.Kind where
  | timeBeforeExpiration
  | graceLoginsRemaining

namespace Warning.Kind

def of : Kind → Int32 → Warning
  | timeBeforeExpiration => .timeBeforeExpiration
  | graceLoginsRemaining => .graceLoginsRemaining

def number : Kind → UInt32
  | timeBeforeExpiration => 0
  | graceLoginsRemaining => 1

def key : Kind → String
  | timeBeforeExpiration => "time-before-expiration"
  | graceLoginsRemaining => "grace-logins-remaining"

theorem asNamed?_key (kind : Kind) : asNamed? kinds (.string kind.key) = some kind.of := by
  cases kind <;> rfl

end Warning.Kind

structure Spelled where
  warning : Option (Warning.Kind × Int64)
  problem : Option Problem

def warningElement (w : Warning.Kind × Int64) : Element :=
  (Element.sequence [(Element.integer w.2.toInt).context w.1.number]).context 0

def Spelled.elements (f : Spelled) : List Element :=
  (f.warning.map warningElement).toList ++
    (f.problem.map fun p ↦ (Element.enumerated p.code).context 1).toList

def Spelled.members (f : Spelled) : List (String × Option Value) :=
  [("warning-type", f.warning.map fun w ↦ .string w.1.key),
    ("warning-value", f.warning.map fun w ↦ .ofInt w.2.toInt),
    ("error-type", f.problem.map fun p ↦ .string p.key)]

/-- An amount that does not fit is refused, for being negative or for having too many bits. -/
theorem verdict_decode_warningElement (w : Warning.Kind × Int64) :
    verdict (Warning.decode (warningElement w)) =
      match (Word.ofInt? w.2.toInt).filter (0 ≤ ·) with
      | some amount => .ok (w.1.of amount)
      | none => .error .valueOutOfRange := by
  obtain ⟨kind, v⟩ := w
  let choice := (Element.integer v.toInt).context kind.number
  let what := "Password policy warning value"
  have hi : choice.asInteger = .ok v.toInt :=
    Element.asInteger_of_asOctets rfl v.le_toInt v.toInt_lt
  have hcount : checkCount [choice] 1 1 "Password policy warning" = .ok () := rfl
  have hdecode : Warning.decode (warningElement (kind, v)) =
      (nonNegative choice what).map kind.of := by
    rw [Warning.decode, warningElement, Element.asChildren_context, ok_bind, hcount, ok_bind]
    cases kind with
    | timeBeforeExpiration => exact bind_ok_eq_map _ _
    | graceLoginsRemaining => exact bind_ok_eq_map _ _
  have hn : verdict (nonNegative choice what) =
      match (Word.ofInt? v.toInt).filter (0 ≤ ·) with
      | some amount => .ok amount
      | none => .error .valueOutOfRange := by
    rw [nonNegative, Element.asInt32, hi, ok_bind]
    cases Word.ofInt? v.toInt with
    | none => rfl
    | some amount =>
      by_cases ha : amount < 0
      · have hf : (some amount).filter (0 ≤ ·) = none := by simpa using ha
        simp only [hf, within_ok, ok_bind, if_pos ha]
        rfl
      · have hf : (some amount).filter (0 ≤ ·) = some amount := by simpa using Int32.not_lt.1 ha
        simp only [hf, within_ok, ok_bind, if_neg ha]
        rfl
  rw [hdecode, verdict_map, hn]
  cases (Word.ofInt? v.toInt).filter (0 ≤ ·) <;> rfl

theorem formsAgree : extension.FormsAgree Spelled.elements Spelled.members := by
  refine .of_fields name 0 2 decode (fun _ _ ↦ rfl) rfl
    (fun f ↦ ⟨Nat.zero_le _, ?_⟩) (fun f ↦ ?_) (fun _ ↦ rfl) (by decide) fun f strict ms h ↦ ?_
  · obtain ⟨warning, problem⟩ := f
    cases warning <;> cases problem <;> simp [Spelled.elements]
  · obtain ⟨warning, problem⟩ := f
    cases warning <;> cases problem <;>
      simp [Spelled.elements, warningElement, Element.depthAll]
  · simp only [Spelled.members, List.forall_mem_cons] at h
    obtain ⟨hkind, hamount, hproblem, -⟩ := h
    have hk := Members.optional_map (asNamed? Warning.kinds) (fun w ↦ w.1.of) hkind
      fun w _ ↦ ⟨by simp, w.1.asNamed?_key⟩
    have ha := Members.optional_map Value.asInt64? (fun w ↦ w.2.toInt) hamount
      fun w _ ↦ ⟨by simp [Value.ofInt], Value.asInt64?_ofInt w.2.le_toInt w.2.toInt_lt⟩
    have htag : ∀ w, (warningElement w).tag = warningTag := fun _ ↦ rfl
    rw [Spelled.elements, decode_fields htag]
    simp only [structured, hk, ha, optional_problem hproblem, orInvalid_some, ok_bind]
    cases f.warning with
    | none => rfl
    | some w =>
      have hw : (some w).mapM (Warning.decode <| warningElement ·) =
          (Warning.decode (warningElement w)).map some := Option.mapM_some ..
      rw [hw, verdict_map, verdict_map, verdict_decode_warningElement]
      simp only [Option.map_some]
      cases (Word.ofInt? w.2.toInt).filter (0 ≤ ·) <;> rfl

end PasswordPolicy

/-- Whatever fields both forms of a value can spell are checked by the same rules. -/
theorem Extension.value_forms_agree :
    GeneratePassword.extension.FormsAgree GeneratePassword.Spelled.elements
      GeneratePassword.Spelled.members ∧
    PasswordPolicy.extension.FormsAgree PasswordPolicy.Spelled.elements
      PasswordPolicy.Spelled.members ∧
    ExcludeBranch.extension.FormsAgree ExcludeBranch.elements ExcludeBranch.members ∧
    GeneratedPasswords.extension.FormsAgree GeneratedPasswords.elements
      GeneratedPasswords.members ∧
    BackupQuery.extension.FormsAgree BackupQuery.elements BackupQuery.members ∧
    BackupDescriptor.extension.FormsAgree BackupDescriptor.elements BackupDescriptor.members ∧
    EndTransaction.extension.FormsAgree EndTransaction.elements EndTransaction.members ∧
    MissingChangelog.extension.FormsAgree MissingChangelog.elements MissingChangelog.members :=
  ⟨GeneratePassword.formsAgree, PasswordPolicy.formsAgree, ExcludeBranch.formsAgree,
    GeneratedPasswords.formsAgree, BackupQuery.formsAgree, BackupDescriptor.formsAgree,
    EndTransaction.formsAgree, MissingChangelog.formsAgree⟩

/-- A count that has one bit too many, and an update that is dropped. -/
theorem Extension.value_forms_agree_limits :
    let request := GeneratePassword.extension
    let asked : GeneratePassword.Spelled := ⟨.policy "cn=p", some 0x80000000, none⟩
    let bytes := (Element.sequence asked.elements).encode
    let header : ExtendedRequest := ⟨request.oid, none⟩
    let value := Value.object (Members.ofFields asked.members)
    let ending := EndTransaction.extension
    let dropped := (some false, [7])
    let octets := (Element.sequence (EndTransaction.elements dropped)).encode
    let ended : ExtendedRequest := ⟨ending.oid, none⟩
    verdict ((request.decode (withValue header (some bytes))).map Typed.bare) =
      verdict ((request.ofJson header value true).map Typed.bare) ∧
    (verdict ((request.ofJson header value true).map Typed.bare)).map Typed.payload =
      .error .valueOutOfRange ∧
    (verdict ((ending.decode (withValue ended (some octets))).map Typed.bare)).map Typed.payload =
      .ok ⟨false, [7]⟩ := by
  intro request asked bytes header value ending dropped octets ended
  obtain ⟨hrequest, -, -, -, -, -, hending, -⟩ := value_forms_agree
  have hbytes := hrequest.spelled asked (by decide +kernel)
  have hoctets := hending.spelled dropped (by decide +kernel)
  refine ⟨hrequest.agree asked bytes hbytes header true, by decide +kernel, ?_⟩
  rw [hending.agree dropped octets hoctets ended true]
  decide +kernel

end LdapCodec
