import LdapCodec.Known
import LdapCodec.Proofs.Payload
import LdapCodec.Proofs.Trapping.Envelope

namespace LdapCodec.Trapping

open Ber Json

variable (trap : DecodeError)

/-- The fields of a value are as many as were asked for. -/
theorem fields_bind_congr {α : Type} {f g : List Element → Except DecodeError α} {min max : Nat}
    (h : ∀ es, min ≤ es.length → es.length ≤ max → f es = g es) (value : Option Bytes)
    (name : String) :
    Payload.fields value name min max >>= f = Payload.fields value name min max >>= g := by
  cases hp : Payload.fields value name min max with
  | error err => rfl
  | ok es =>
    obtain ⟨_, _, hp⟩ := bind_eq_ok.1 hp
    obtain ⟨children, _, hp⟩ := bind_eq_ok.1 hp
    obtain ⟨_, hc, hp⟩ := bind_eq_ok.1 hp
    cases hp
    obtain ⟨hmin, hmax⟩ := length_of_checkCount hc
    exact h es hmin hmax

def constructed {H α : Type} (make : α → Except Refusal (Typed H α)) (x : Except DecodeError α) :
    Except DecodeError α := do
  let a ← x
  let t ← built trap (make a)
  .ok t.payload

theorem constructed_eq {H α : Type} (make : α → Except Refusal (Typed H α))
    (x : Except DecodeError α) (h : ∀ a, x = .ok a → ∃ hd, make a = .ok (.new hd a)) :
    constructed trap make x = x := by
  cases x with
  | error err => rfl
  | ok a =>
    obtain ⟨hd, ha⟩ := h a rfl
    rw [constructed, ok_bind, ha, built_ok]
    rfl

def excludeBranchFields (fields : List Element) : Except DecodeError ExcludeBranch := do
  let first ← item trap fields 0
  expectField first ExcludeBranch.baseDnsTag "Exclude branch base DNs"
  let baseDns ← (← first.asChildren).mapM (textField · "Exclude branch base DN")
  ExcludeBranch.check baseDns

def excludeBranch : Extension Control Bool ExcludeBranch :=
  { ExcludeBranch.extension with
    decodeValue := fun _ value ↦ do
      excludeBranchFields trap (← payloadFields trap value ExcludeBranch.name 1 1)
    structured := some
      { ExcludeBranch.structured with
        read := fun strict ms ↦ constructed trap
          (fun x ↦ ExcludeBranch.build ExcludeBranch.defaultCriticality x.baseDns)
          (ExcludeBranch.structured.read strict ms) } }

theorem excludeBranch_eq : excludeBranch trap = ExcludeBranch.extension := by
  have hfields (es : List Element) (h : 1 ≤ es.length) (_ : es.length ≤ 1) :
      excludeBranchFields trap es = ExcludeBranch.decode es := by
    cases es with
    | nil => simp at h
    | cons first rest => rfl
  have hread (strict : Bool) (ms : Members) :=
    constructed_eq trap
      (fun x ↦ ExcludeBranch.build ExcludeBranch.defaultCriticality x.baseDns)
      (ExcludeBranch.structured.read strict ms) fun x hx ↦
        ⟨_, if_neg (ExcludeBranch.valid_of_read hx)⟩
  simp only [excludeBranch, payloadFields_eq, fields_bind_congr hfields, hread]
  rfl

def warning (e : Element) : Except DecodeError PasswordPolicy.Warning := do
  let choices ← e.asChildren
  checkCount choices 1 1 "Password policy warning"
  let choice ← item trap choices 0
  if choice.tag = .contextSpecific false 0 then
    .ok (.timeBeforeExpiration (← nonNegative trap choice "Password policy warning value"))
  else if choice.tag = .contextSpecific false 1 then
    .ok (.graceLoginsRemaining (← nonNegative trap choice "Password policy warning value"))
  else .error (unexpected choice "password policy warning")

theorem warning_eq (e : Element) : warning trap e = PasswordPolicy.Warning.decode e := by
  unfold warning PasswordPolicy.Warning.decode
  cases e.asChildren with
  | error err => rfl
  | ok choices =>
    cases choices with
    | nil => rfl
    | cons choice rest => simp only [item_zero, nonNegative_eq, ok_bind]

def problem (e : Element) : Except DecodeError PasswordPolicy.Problem := do
  PasswordPolicy.Problem.ofCode (← within "Password policy error" (asInteger trap e))

def passwordPolicyFields (fields : List Element) : Except DecodeError PasswordPolicy := do
  let (warning, problem) ← optionalFields PasswordPolicy.name
    PasswordPolicy.warningTag (warning trap) PasswordPolicy.problemTag (problem trap) fields
  .ok ⟨warning, problem⟩

def passwordPolicy : Extension Control Bool PasswordPolicy :=
  { PasswordPolicy.extension with
    decodeValue := fun _ value ↦ do
      passwordPolicyFields trap (← payloadFields trap value PasswordPolicy.name 0 2) }

theorem passwordPolicy_eq : passwordPolicy trap = PasswordPolicy.extension := by
  have hw : warning trap = PasswordPolicy.Warning.decode := funext (warning_eq trap)
  have hp : problem trap = PasswordPolicy.decode.readProblem := by
    funext e
    rw [problem, asInteger_eq]
    rfl
  simp only [passwordPolicy, payloadFields_eq, passwordPolicyFields, hw, hp]
  rfl

def newRequest : Except DecodeError GeneratePassword := do
  let t ← built trap (GeneratePassword.build .default GeneratePassword.defaultPasswords
    GeneratePassword.defaultAttempts)
  .ok t.payload

theorem newRequest_eq : newRequest trap = .ok GeneratePassword.standard := rfl

def requestField (x : GeneratePassword) (e : Element) :
    Except DecodeError (Nat × GeneratePassword) := do
  if e.tag = .contextSpecific false 0 then
    within "Default policy selection" e.asNull
    .ok (0, { x with selection := .default })
  else if e.tag = .contextSpecific false 1 then
    let dn ← within "Password policy DN" e.asText
    .ok (0, { x with selection := .policy dn })
  else if e.tag = .contextSpecific false 2 then
    let dn ← within "Target entry DN" e.asText
    .ok (0, { x with selection := .target dn })
  else if e.tag = .contextSpecific false 3 then
    let passwords ←
      GeneratePassword.checkPasswords (← within "Number of passwords" (asInteger trap e))
    .ok (1, { x with passwords })
  else if e.tag = .contextSpecific false 4 then
    let attempts ←
      GeneratePassword.checkAttempts (← within "Number of validation attempts" (asInteger trap e))
    .ok (2, { x with attempts })
  else .error (unexpected e GeneratePassword.name)

def generatePassword : Extension ExtendedRequest Unit GeneratePassword :=
  { GeneratePassword.extension with
    decodeValue := fun _ value ↦
      match value with
      | none => newRequest trap
      | some bytes => do
        let fields ← payloadFields trap (some bytes) GeneratePassword.name 0 3
        orderedFields GeneratePassword.name (requestField trap) 0 (← newRequest trap) fields
    structured := some
      { GeneratePassword.structured with
        read := fun strict ms ↦ constructed trap
          (fun x ↦ GeneratePassword.build x.selection x.passwords x.attempts)
          (GeneratePassword.structured.read strict ms) } }

theorem build_of_valid {x : GeneratePassword} (h : x.Valid) :
    GeneratePassword.build x.selection x.passwords x.attempts = .ok (.new () x) := by
  rw [GeneratePassword.build, if_neg (Int32.not_lt.2 h.1), if_neg (Int32.not_lt.2 h.2)]

theorem generatePassword_eq : generatePassword trap = GeneratePassword.extension := by
  have hfield : requestField trap = GeneratePassword.readField := by
    funext x e
    simp only [requestField, asInteger_eq]
    rfl
  have hread (strict : Bool) (ms : Members) :=
    constructed_eq trap
      (fun x ↦ GeneratePassword.build x.selection x.passwords x.attempts)
      (GeneratePassword.structured.read strict ms) fun x hx ↦
        ⟨_, build_of_valid (GeneratePassword.valid_of_read hx)⟩
  simp only [generatePassword, payloadFields_eq, newRequest_eq, hfield, hread, ok_bind]
  rfl

def generatedPassword (e : Element) : Except DecodeError GeneratedPassword := do
  expectField e .sequence GeneratedPassword.what
  let children ← e.asChildren
  checkCount children 2 3 GeneratedPassword.what
  let password ← textField (← item trap children 0) "Generated password value"
  let flag ← item trap children 1
  expectField flag .boolean "Validation attempted flag"
  let attempted ← asBoolean trap flag
  match children[2]? with
  | none => .ok ⟨password, attempted, []⟩
  | some field =>
    expectField field (.contextSpecific true 0) "Validation errors"
    let errors ← (← field.asChildren).mapM (textField · "Validation error")
    .ok ⟨password, attempted, errors⟩

theorem generatedPassword_eq (e : Element) :
    generatedPassword trap e = GeneratedPassword.decode e := by
  unfold generatedPassword GeneratedPassword.decode
  refine bind_congr fun _ ↦ bind_congr fun children ↦ ?_
  match children with
  | [] => rfl
  | [_] => rfl
  | [first, second] => simp only [item_zero, item_succ, ok_bind, asBoolean_eq]; rfl
  | first :: second :: third :: rest => simp only [item_zero, item_succ, ok_bind, asBoolean_eq]; rfl

def generatedPasswordsFields (fields : List Element) : Except DecodeError GeneratedPasswords := do
  let policyDn ← textField (← item trap fields 0) "Password policy DN"
  let list ← item trap fields 1
  expectField list .sequence "Generated passwords"
  let passwords ← (← list.asChildren).mapM (generatedPassword trap)
  GeneratedPasswords.check policyDn passwords

def generatedPasswords : Extension ExtendedResult OperationResult (Option GeneratedPasswords) :=
  { GeneratedPasswords.extension with
    decodeValue := resultValue GeneratedPasswords.name fun value ↦ do
      generatedPasswordsFields trap (← payloadFields trap value GeneratedPasswords.name 2 2) }

theorem generatedPasswords_eq : generatedPasswords trap = GeneratedPasswords.extension := by
  have hitems : generatedPassword trap = GeneratedPassword.decode :=
    funext (generatedPassword_eq trap)
  have hfields (es : List Element) (h : 2 ≤ es.length) (_ : es.length ≤ 2) :
      generatedPasswordsFields trap es = GeneratedPasswords.decode es := by
    match es with
    | [] => simp at h
    | [_] => simp at h
    | first :: second :: rest =>
      simp only [generatedPasswordsFields, item_zero, item_succ, ok_bind, hitems]
      rfl
  simp only [generatedPasswords, payloadFields_eq, fields_bind_congr hfields]
  rfl

def backupQueryFields (fields : List Element) : Except DecodeError BackupQuery := do
  let first ← item trap fields 0
  expectField first (.contextSpecific false 0) "Backup compatibility base DN"
  .ok ⟨← within "Backup compatibility base DN" first.asText⟩

def backupQuery : Extension ExtendedRequest Unit BackupQuery :=
  { BackupQuery.extension with
    decodeValue := fun _ value ↦ do
      backupQueryFields trap (← payloadFields trap value BackupQuery.name 1 1) }

theorem backupQuery_eq : backupQuery trap = BackupQuery.extension := by
  have hfields (es : List Element) (h : 1 ≤ es.length) (_ : es.length ≤ 1) :
      backupQueryFields trap es = BackupQuery.decode es := by
    cases es with
    | nil => simp at h
    | cons first rest => rfl
  simp only [backupQuery, payloadFields_eq, fields_bind_congr hfields]
  rfl

def backupDescriptorFields (fields : List Element) : Except DecodeError BackupDescriptor := do
  let first ← item trap fields 0
  expectField first (.contextSpecific false 0) "Backup compatibility descriptor"
  let descriptor ← first.asOctets
  match fields[1]? with
  | none => .ok ⟨descriptor, []⟩
  | some field =>
    if field.tag = .contextSpecific true 1 then
      .ok ⟨descriptor, ← BackupDescriptor.decode.readProperties field⟩
    else .error (unexpected field BackupDescriptor.name)

def backupDescriptor : Extension ExtendedResult OperationResult (Option BackupDescriptor) :=
  { BackupDescriptor.extension with
    decodeValue := resultValue BackupDescriptor.name fun value ↦ do
      backupDescriptorFields trap (← payloadFields trap value BackupDescriptor.name 1 2) }

theorem backupDescriptor_eq : backupDescriptor trap = BackupDescriptor.extension := by
  have hfields (es : List Element) (hmin : 1 ≤ es.length) (hmax : es.length ≤ 2) :
      backupDescriptorFields trap es = BackupDescriptor.decode es := by
    match es with
    | [] => simp at hmin
    | [_] => rfl
    | [first, field] =>
      unfold backupDescriptorFields BackupDescriptor.decode
      rw [item_zero, ok_bind]
      refine bind_congr fun _ ↦ bind_congr fun descriptor ↦ ?_
      simp only [List.getElem?_cons_succ, List.getElem?_cons_zero, optionalField]
      split
      · simp only [bind_assoc]
        exact bind_congr fun properties ↦ rfl
      · rfl
    | _ :: _ :: _ :: _ => simp at hmax
  simp only [backupDescriptor, payloadFields_eq, fields_bind_congr hfields]
  rfl

def missingChangelog : Extension IntermediateResponse Unit MissingChangelog :=
  { MissingChangelog.extension with
    decodeValue := fun _ value ↦ do
      MissingChangelog.decode (← payloadFields trap value MissingChangelog.name 0 1) }

theorem missingChangelog_eq : missingChangelog trap = MissingChangelog.extension := by
  simp only [missingChangelog, payloadFields_eq]
  rfl

def endTransactionFields (fields : List Element) : Except DecodeError EndTransaction := do
  let commit ←
    if fields.length = 2 then do
      let flag ← item trap fields 0
      expectField flag .boolean "Transaction commit flag"
      asBoolean trap flag
    else .ok true
  let id ← item trap fields (fields.length - 1)
  EndTransaction.decode.readId commit id

def endTransaction : Extension ExtendedRequest Unit EndTransaction :=
  { EndTransaction.extension with
    decodeValue := fun _ value ↦ do
      endTransactionFields trap (← payloadFields trap value EndTransaction.name 1 2) }

theorem endTransaction_eq : endTransaction trap = EndTransaction.extension := by
  have hfields (es : List Element) (hmin : 1 ≤ es.length) (hmax : es.length ≤ 2) :
      endTransactionFields trap es = EndTransaction.decode es := by
    match es with
    | [] => simp at hmin
    | [id] => rfl
    | [flag, id] =>
      have htwo : [flag, id].length = 2 := rfl
      rw [endTransactionFields, if_pos htwo]
      simp only [item_zero, ok_bind, asBoolean_eq]
      rfl
    | _ :: _ :: _ :: _ => simp at hmax
  simp only [endTransaction, payloadFields_eq, fields_bind_congr hfields]
  rfl

def updateControls (e : Element) : Except DecodeError UpdateControls := do
  expectField e .sequence UpdateControls.what
  let children ← e.asChildren
  checkCount children 2 2 UpdateControls.what
  let id ← item trap children 0
  expectField id .integer "Update message ID"
  let messageId ← nonNegative trap id "Update message ID"
  let controls ← item trap children 1
  expectField controls .sequence "Update controls list"
  .ok ⟨messageId, controls⟩

theorem updateControls_eq (e : Element) : updateControls trap e = UpdateControls.decode e := by
  unfold updateControls UpdateControls.decode
  refine bind_congr fun _ ↦ bind_congr fun children ↦ ?_
  match children with
  | [] => rfl
  | [_] => rfl
  | id :: controls :: rest => simp only [item_zero, item_succ, ok_bind, nonNegative_eq]

def endedField (x : EndedTransaction) (e : Element) :
    Except DecodeError (Nat × EndedTransaction) := do
  if e.tag = .integer then
    let id ← nonNegative trap e "Failed message ID"
    .ok (0, { x with failedMessageId := some id })
  else if e.tag = .sequence then
    let updates ← (← e.asChildren).mapM (updateControls trap)
    .ok (1, { x with updates })
  else .error (unexpected e EndedTransaction.name)

def endedValue (value : Option Bytes) : Except DecodeError EndedTransaction :=
  match value with
  | none => .ok ⟨none, []⟩
  | some bytes => do
    let fields ← payloadFields trap (some bytes) EndedTransaction.name 0 2
    orderedFields EndedTransaction.name (endedField trap) 0 ⟨none, []⟩ fields

def endedTransaction (r : ExtendedResult) :
    Except DecodeError (Typed OperationResult EndedTransaction) := do
  let x ← endedValue trap r.value
  .ok ⟨r.result, x, .of r.value⟩

theorem endedTransaction_eq (r : ExtendedResult) :
    endedTransaction trap r = EndedTransaction.ofResult r := by
  have hu : updateControls trap = UpdateControls.decode := funext (updateControls_eq trap)
  have hfield : endedField trap = EndedTransaction.readField := by
    funext x e
    simp only [endedField, nonNegative_eq, hu]
    rfl
  have hvalue : endedValue trap r.value = EndedTransaction.decodeValue r.value := by
    cases r.value with
    | none => rfl
    | some bytes =>
      simp only [endedValue, payloadFields_eq, hfield]
      rfl
  rw [endedTransaction, hvalue]
  rfl

end LdapCodec.Trapping
