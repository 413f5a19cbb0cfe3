import LdapCodec.Proofs.Json.Fields
import LdapCodec.Proofs.Payload

namespace LdapCodec

open Json

/-- What a form writes for `a` is an object without other keys than its own, and is read
as `a` again. -/
def Structured.Restores {α : Type} (form : Structured α) (a : α) : Prop :=
  ∀ v, form.write a = some v → ∃ ms : Members, v = .object ms ∧ ms.unknown? form.fields = none ∧
    ∀ strict, form.read strict ms = .ok a

def Extension.Restores {E H α : Type} (x : Extension E H α) : Prop :=
  ∀ hd value a form, x.decodeValue hd value = .ok a → x.structured = some form →
    form.Restores a

section

variable {E H α : Type} {form : Structured α} {x : Extension E H α}

theorem Structured.Restores.of_object {a : α} (ms : Members) (hw : form.write a = some (.object ms))
    (hk : ms.unknown? form.fields = none) (hr : ∀ strict, form.read strict ms = .ok a) :
    form.Restores a := by
  intro v hv
  rw [hw] at hv
  cases hv
  exact ⟨ms, rfl, hk, hr⟩

theorem Structured.Restores.of_none {a : α} (hw : form.write a = none) : form.Restores a := by
  intro v hv
  rw [hw] at hv
  cases hv

theorem Extension.Restores.of_all (hx : x.structured = some form) (h : ∀ a, form.Restores a) :
    x.Restores := by
  intro hd value a form' _ hf
  rw [hx] at hf
  cases hf
  exact h a

theorem Extension.Restores.of_valid {Valid : α → Prop} (hx : x.structured = some form)
    (hv : ∀ hd value a, x.decodeValue hd value = .ok a → Valid a)
    (h : ∀ a, Valid a → form.Restores a) : x.Restores := by
  intro hd value a form' ha hf
  rw [hx] at hf
  cases hf
  exact h a (hv hd value a ha)

theorem Extension.Restores.of_none (hx : x.structured = none) : x.Restores := by
  intro hd value a form' _ hf
  rw [hx] at hf
  cases hf

end

@[simp]
theorem orInvalid_some {α : Type} (name : String) (a : α) : orInvalid name (some a) = .ok a := rfl

theorem ExcludeBranch.structured_restores {x : ExcludeBranch} (h : x.Valid) :
    structured.Restores x := by
  let ms : Members := [("base-dns", .ofTexts x.baseDns)]
  have hb : ms.required Value.asTexts? "base-dns" = some x.baseDns :=
    (Members.required_eq _ rfl).trans (Value.asTexts?_ofTexts _)
  have hc : check x.baseDns = .ok x := check_eq_ok_iff.2 ⟨rfl, h⟩
  refine .of_object ms rfl rfl fun strict ↦ ?_
  simp only [structured, hb, hc, orInvalid_some, ok_bind]

theorem ExcludeBranch.extension_restores : extension.Restores := by
  refine .of_valid rfl ?_ fun x ↦ structured_restores
  intro _ value x h
  obtain ⟨_, _, h⟩ := bind_eq_ok.1 h
  exact valid_of_decode h

theorem BackupQuery.structured_restores (x : BackupQuery) : structured.Restores x := by
  let ms : Members := [("base-dn", .string x.baseDn)]
  have hb : ms.required Value.asText? "base-dn" = some x.baseDn := Members.required_text rfl
  refine .of_object ms rfl rfl fun strict ↦ ?_
  simp only [structured, hb, orInvalid_some, ok_bind]

theorem BackupQuery.extension_restores : extension.Restores := .of_all rfl structured_restores

theorem TransactionSpecification.structured_restores (x : TransactionSpecification) :
    structured.Restores x := by
  let ms : Members := [("transaction-id-base64", .string (Base64.encode x.transactionId))]
  have ht : ms.required Value.asText? "transaction-id-base64" =
      some (Base64.encode x.transactionId) := Members.required_text rfl
  refine .of_object ms rfl rfl fun strict ↦ ?_
  simp only [structured, ht, decodeBase64_encode, orInvalid_some, ok_bind]

theorem TransactionSpecification.extension_restores : extension.Restores :=
  .of_all rfl structured_restores

theorem EndTransaction.structured_restores (x : EndTransaction) : structured.Restores x := by
  let ms : Members :=
    [("commit", .bool x.commit),
      ("transaction-id-base64", .string (Base64.encode x.transactionId))]
  have ht : ms.required Value.asText? "transaction-id-base64" =
      some (Base64.encode x.transactionId) := Members.required_text rfl
  have hg : ms.get? "commit" = some (.bool x.commit) := rfl
  have hc : ms.defaulted Value.asBool? true "commit" = some x.commit := by
    rw [Members.defaulted_eq _ _ hg, Value.asBool?]
  refine .of_object ms rfl rfl fun strict ↦ ?_
  simp only [structured, ht, hc, decodeBase64_encode, orInvalid_some, ok_bind]

theorem EndTransaction.extension_restores : extension.Restores := .of_all rfl structured_restores

theorem MissingChangelog.structured_restores (x : MissingChangelog) : structured.Restores x := by
  let ms := Members.insertText "message" x.message []
  have hm : ms.optional Value.asText? "message" = some x.message :=
    Members.optional_text (by simp [ms, Members.get?])
  refine .of_object ms rfl (Members.unknown?_insertText rfl (by decide) _) fun strict ↦ ?_
  simp only [structured, hm, orInvalid_some, ok_bind]

theorem MissingChangelog.extension_restores : extension.Restores :=
  .of_all rfl structured_restores

theorem JsonFormatted.ofMembers_controls (name : String) (x : JsonFormatted) :
    ofMembers name [("controls", .array x.controls)] = .ok x := by
  simp [ofMembers, Members.required, Members.get?, Value.asItems?]

theorem JsonFormatted.extension_restores (oid name : String) :
    (extension oid name).Restores :=
  .of_all rfl fun x ↦ .of_object _ rfl rfl fun _ ↦ ofMembers_controls name x

theorem ManageDsaIt.extension_restores : extension.Restores := .of_none rfl

theorem StartTransaction.extension_restores : extension.Restores := .of_none rfl

namespace BackupDescriptor

theorem read_eq_ok (x : BackupDescriptor) {ms : Members}
    (hd : ms.get? "descriptor-base64" = some (.string (Base64.encode x.descriptor)))
    (hp : ms.defaulted Value.asTexts? [] "properties" = some x.properties) (strict : Bool) :
    structured.read strict ms = .ok (some x) := by
  have ht : ms.required Value.asText? "descriptor-base64" = some (Base64.encode x.descriptor) :=
    Members.required_text hd
  simp only [structured, ht, hp, decodeBase64_encode, orInvalid_some, ok_bind]

/-- Results without a value have no structured one. -/
theorem structured_restores (a : Option BackupDescriptor) : structured.Restores a := by
  cases a with
  | none => exact .of_none rfl
  | some x =>
    let ms : Members := [("descriptor-base64", .string (Base64.encode x.descriptor))]
    have hd : ms.get? "descriptor-base64" = some (.string (Base64.encode x.descriptor)) := rfl
    by_cases hp : x.properties = []
    · refine .of_object ms ?_ rfl (read_eq_ok x hd ?_)
      · simp only [structured, Option.map_some, if_pos hp, ms]
      · rw [hp, Members.defaulted_eq_default _ _ rfl]
    · refine .of_object (ms.insert "properties" (.ofTexts x.properties)) ?_
        (Members.unknown?_insert rfl (by decide) _) (read_eq_ok x ?_ ?_)
      · simp only [structured, Option.map_some, if_neg hp, ms]
      · rw [Members.get?_insert_of_ne (by decide), hd]
      · rw [Members.defaulted_eq _ _ (Members.get?_insert_self _ _ _), Value.asTexts?_ofTexts]

theorem extension_restores : extension.Restores := .of_all rfl structured_restores

end BackupDescriptor

theorem checkFields_object {ms : Members} {allowed : List String} (strict : Bool) (what : String)
    (h : ms.unknown? allowed = none) : checkFields (.object ms) allowed strict what = .ok ms := by
  simp only [checkFields, Value.asMembers?, h]

namespace GeneratedPassword

/-- The members of an item, whether or not there were errors. -/
theorem toValue_eq (x : GeneratedPassword) :
    ∃ ms : Members, x.toValue = .object ms ∧ ms.unknown? fields = none ∧
      ms.get? "password" = some (.string x.password) ∧
      ms.get? "validation-attempted" = some (.bool x.attempted) ∧
      ms.defaulted Value.asTexts? [] "validation-errors" = some x.errors := by
  let ms : Members :=
    [("password", .string x.password), ("validation-attempted", .bool x.attempted)]
  by_cases he : x.errors = []
  · refine ⟨ms, ?_, rfl, rfl, rfl, ?_⟩
    · simp [toValue, he, ms]
    · rw [he, Members.defaulted_eq_default _ _ rfl]
  · refine ⟨ms.insert "validation-errors" (.ofTexts x.errors), ?_,
      Members.unknown?_insert rfl (by decide) _, ?_, ?_, ?_⟩
    · simp [toValue, he, ms]
    · simp [Members.get?, ms]
    · simp [Members.get?, ms]
    · rw [Members.defaulted_eq _ _ (Members.get?_insert_self _ _ _), Value.asTexts?_ofTexts]

theorem ofValue?_toValue (x : GeneratedPassword) : ofValue? x.toValue = some x := by
  obtain ⟨ms, hv, _, hp, ha, he⟩ := toValue_eq x
  simp [ofValue?, hv, Value.asMembers?, Members.required, hp, ha, he, Value.asText?,
    Value.asBool?]

theorem checkFields_toValue (x : GeneratedPassword) (strict : Bool) :
    (checkFields x.toValue fields strict what).map (fun _ ↦ ()) = .ok () := by
  obtain ⟨ms, hv, hk, _⟩ := toValue_eq x
  rw [hv, checkFields_object strict what hk]
  rfl

end GeneratedPassword

namespace GeneratedPasswords

/-- The items of a list are checked one by one. -/
theorem checkItems_eq_ok {ms : Members} {items : List Value} {strict : Bool}
    (h : ms.get? "generated-passwords" = some (.array items))
    (hitems : ∀ item ∈ items, (checkFields item GeneratedPassword.fields strict
      GeneratedPassword.what).map (fun _ ↦ ()) = .ok ()) : checkItems strict ms = .ok () := by
  simp only [checkItems, h]
  clear h
  induction items with
  | nil => rfl
  | cons item items ih =>
    obtain ⟨hitem, hitems⟩ := List.forall_mem_cons.1 hitems
    simp only [List.forM_eq_forM, List.forM_cons, hitem, ok_bind] at ih ⊢
    exact ih hitems

theorem structured_restores {a : Option GeneratedPasswords} (h : ∀ x, a = some x → x.Valid) :
    structured.Restores a := by
  cases a with
  | none => exact .of_none rfl
  | some x =>
    let items := x.passwords.map GeneratedPassword.toValue
    let ms : Members :=
      [("generated-passwords", .array items), ("password-policy-dn", .string x.policyDn)]
    have hd : ms.required Value.asText? "password-policy-dn" = some x.policyDn :=
      Members.required_text rfl
    have hr : ms.required Value.asItems? "generated-passwords" = some items := rfl
    have hm : items.mapM GeneratedPassword.ofValue? = some (x.passwords.map id) :=
      mapM_map_eq_some fun p _ ↦ p.ofValue?_toValue
    rw [List.map_id] at hm
    have hc : check x.policyDn x.passwords = .ok x := check_eq_ok_iff.2 ⟨rfl, h x rfl⟩
    refine .of_object ms rfl rfl fun strict ↦ ?_
    have hi : checkItems strict ms = .ok () :=
      checkItems_eq_ok rfl (List.forall_mem_map.2 fun p _ ↦ p.checkFields_toValue strict)
    simp only [structured, hi, hd, hr, hm, hc, orInvalid_some, ok_bind]

theorem extension_restores : extension.Restores :=
  .of_valid rfl (fun _ _ _ ↦ valid_of_decodeValue) fun _ ↦ structured_restores

end GeneratedPasswords

namespace GeneratePassword

theorem read_eq_ok {x : GeneratePassword} (h : x.Valid) {ms : Members}
    (policyDn targetDn : Option String)
    (hp : ms.get? "password-policy-dn" = policyDn.map .string)
    (ht : ms.get? "target-entry-dn" = targetDn.map .string)
    (hn : ms.get? "number-of-passwords" = some (.ofInt x.passwords.toInt))
    (ha : ms.get? "number-of-validation-attempts" = some (.ofInt x.attempts.toInt))
    (hs : select policyDn targetDn = .ok x.selection) (strict : Bool) :
    structured.read strict ms = .ok x := by
  have hpasswords : checkPasswords x.passwords.toInt = .ok x.passwords :=
    checkLeast_eq_ok_iff.2 ⟨rfl, h.1⟩
  have hattempts : checkAttempts x.attempts.toInt = .ok x.attempts :=
    checkLeast_eq_ok_iff.2 ⟨rfl, h.2⟩
  simp only [structured, Members.optional_text hp, Members.optional_text ht,
    Members.optional_int64 hn, Members.optional_int64 ha, hs, hpasswords, hattempts,
    orInvalid_some, ok_bind, Option.getD_some]

theorem structured_restores {x : GeneratePassword} (h : x.Valid) : structured.Restores x := by
  let counts : Members :=
    [("number-of-passwords", .ofInt x.passwords.toInt),
      ("number-of-validation-attempts", .ofInt x.attempts.toInt)]
  have hn : counts.get? "number-of-passwords" = some (.ofInt x.passwords.toInt) := rfl
  have ha : counts.get? "number-of-validation-attempts" = some (.ofInt x.attempts.toInt) := rfl
  have hp : counts.get? "password-policy-dn" = none := rfl
  have ht : counts.get? "target-entry-dn" = none := rfl
  cases hx : x.selection with
  | default =>
    refine .of_object counts ?_ rfl (read_eq_ok h none none hp ht hn ha (by rw [hx]; rfl))
    simp only [structured, hx, counts]
  | policy dn =>
    refine .of_object (counts.insert "password-policy-dn" (.string dn)) ?_
      (Members.unknown?_insert rfl (by decide) _)
      (read_eq_ok h (some dn) none ?_ ?_ ?_ ?_ (by rw [hx]; rfl))
    · simp only [structured, hx, counts]
    · exact Members.get?_insert_self _ _ _
    · rw [Members.get?_insert_of_ne (by decide), ht, Option.map_none]
    · rw [Members.get?_insert_of_ne (by decide), hn]
    · rw [Members.get?_insert_of_ne (by decide), ha]
  | target dn =>
    refine .of_object (counts.insert "target-entry-dn" (.string dn)) ?_
      (Members.unknown?_insert rfl (by decide) _)
      (read_eq_ok h none (some dn) ?_ ?_ ?_ ?_ (by rw [hx]; rfl))
    · simp only [structured, hx, counts]
    · rw [Members.get?_insert_of_ne (by decide), hp, Option.map_none]
    · exact Members.get?_insert_self _ _ _
    · rw [Members.get?_insert_of_ne (by decide), hn]
    · rw [Members.get?_insert_of_ne (by decide), ha]

theorem extension_restores : extension.Restores :=
  .of_valid rfl (fun _ _ _ ↦ valid_of_decodeValue) fun _ ↦ structured_restores

end GeneratePassword

namespace PasswordPolicy

theorem asNamed?_problem (p : Problem) :
    asNamed? (Problem.all.map fun p ↦ (p.key, p)) (.string p.key) = some p := by
  cases p <;> rfl

/-- A warning is named by its kind, and its amount stands beside it. -/
theorem asNamed?_warning (w : Warning) :
    ∃ kind, asNamed? Warning.kinds (.string w.key) = some kind ∧ kind w.amount = w := by
  cases w with
  | timeBeforeExpiration seconds => exact ⟨.timeBeforeExpiration, rfl, rfl⟩
  | graceLoginsRemaining count => exact ⟨.graceLoginsRemaining, rfl, rfl⟩

theorem optional_problem {ms : Members} {problem : Option Problem}
    (h : ms.get? "error-type" = problem.map fun p ↦ .string p.key) :
    ms.optional (asNamed? (Problem.all.map fun p ↦ (p.key, p))) "error-type" =
      some problem := by
  have ho := Members.optional_map (asNamed? (Problem.all.map fun p ↦ (p.key, p))) id h
    fun p _ ↦ ⟨by simp, asNamed?_problem p⟩
  rwa [Option.map_id_fun, id] at ho

theorem structured_restores {x : PasswordPolicy} (h : x.Valid) : structured.Restores x := by
  obtain ⟨warning, problem⟩ := x
  cases warning with
  | none =>
    let ms := Members.insertText "error-type" (problem.map Problem.key) []
    have hk : ms.get? "warning-type" = none := by simp [ms, Members.get?]
    have ha : ms.get? "warning-value" = none := by simp [ms, Members.get?]
    have hp : ms.get? "error-type" = problem.map fun p ↦ .string p.key := by
      simp [ms, Members.get?, Function.comp_def]
    refine .of_object ms rfl (Members.unknown?_insertText rfl (by decide) _) fun strict ↦ ?_
    simp only [structured, Members.optional_eq_none _ hk, Members.optional_eq_none _ ha,
      optional_problem hp, orInvalid_some, ok_bind]
  | some w =>
    let named := (Members.insertText "warning-type" (some w.key) []).insert "warning-value"
      (.ofInt w.amount.toInt)
    have hn : named.unknown? structured.fields = none :=
      Members.unknown?_insert (Members.unknown?_insertText rfl (by decide) _) (by decide) _
    let ms := named.insertText "error-type" (problem.map Problem.key)
    have hk : ms.get? "warning-type" = some (.string w.key) := by simp [ms, named]
    have ha : ms.get? "warning-value" = some (.ofInt w.amount.toInt) := by simp [ms, named]
    have hp : ms.get? "error-type" = problem.map fun p ↦ .string p.key := by
      simp [ms, named, Members.get?, Function.comp_def]
    obtain ⟨kind, hkind, hw⟩ := asNamed?_warning w
    have hamount : (Word.ofInt? w.amount.toInt).filter (0 ≤ ·) = some w.amount :=
      (Word.filter_ofInt?_eq_some_iff _ _ _).2 ⟨rfl, decide_eq_true (h w rfl)⟩
    refine .of_object ms rfl (Members.unknown?_insertText hn (by decide) _) fun strict ↦ ?_
    simp only [structured, Members.optional_eq _ hk (by simp), hkind, Option.map_some,
      Members.optional_int64 ha, optional_problem hp, orInvalid_some, ok_bind, hamount, hw]

theorem extension_restores : extension.Restores := by
  refine .of_valid rfl ?_ fun _ ↦ structured_restores
  intro _ value x h
  obtain ⟨_, _, h⟩ := bind_eq_ok.1 h
  exact valid_of_decode h

end PasswordPolicy

end LdapCodec
