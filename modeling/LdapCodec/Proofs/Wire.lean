import LdapCodec.Proofs.Encoded
import LdapCodec.Proofs.Meaning

namespace LdapCodec

open Envelope (oid? value?)
open Envelope.Lawful (Sound)

namespace Registry

variable {E H T α : Type} [Envelope E H]

def Delivers (r : Registry E T) (back : T → E) (bare : T → T) (t : T) : Prop :=
  ∃ entry ∈ r.entries,
    oid? (back t) = some entry.oid ∧ (entry.decode (back t)).map bare = .ok t

variable {r : Registry E T} {back : T → E} {bare : T → T} {t : T}

theorem Delivers.ofExtension (x : Extension E H α) (wrap : Typed H α → T)
    (hm : Entry.ofExtension x wrap ∈ r.entries) (hback : ∀ t, back (wrap t) = x.toEnvelope t)
    (hbare : ∀ t, bare (wrap t) = wrap t.bare) {hd : H} {a : α} (hc : x.Carries hd a) :
    r.Delivers back bare (wrap (.new hd a)) := by
  refine ⟨_, hm, ?_, ?_⟩
  · rw [hback]
    exact Extension.oid?_toEnvelope _
  · simp only [Entry.ofExtension, hback, Extension.decode_toEnvelope hc, Except.map, hbare]
    rfl

theorem Delivers.oid?_ne (h : r.Delivers back bare t)
    (hr : ∀ entry ∈ r.entries, entry.oid ≠ "") : oid? (back t) ≠ some "" := by
  obtain ⟨entry, hm, ho, _⟩ := h
  rw [ho]
  exact fun h ↦ hr entry hm (Option.some.inj h)

theorem Delivers.decode_sent [Envelope.Lawful E] (h : r.Delivers back bare t)
    (hs : Sound (back t)) (hl : (Envelope.encode (back t)).length < 2 ^ 32) :
    (Envelope.decode (Envelope.encode (back t)) >>= r.decode).map bare = .ok t := by
  obtain ⟨entry, hm, ho, ht⟩ := h
  rw [Envelope.decode_encode hs hl, ok_bind, Registry.decode, entry?_of_mem hm ho, ht]

end Registry

namespace KnownControl

inductive Built : KnownControl → Prop
  | excludeBranch {critical : Bool} {baseDns : List String} {x : Typed Bool ExcludeBranch}
      (h : ExcludeBranch.build critical baseDns = .ok x) : Built (.excludeBranch x)
  | manageDsaIt (critical : Bool) : Built (.manageDsaIt (ManageDsaIt.build critical))
  | passwordPolicy {critical : Bool} {warning : Option PasswordPolicy.Warning}
      {problem : Option PasswordPolicy.Problem} {x : Typed Bool PasswordPolicy}
      (h : PasswordPolicy.build critical warning problem = .ok x) : Built (.passwordPolicy x)
  | transactionSpecification (critical : Bool) (transactionId : Bytes) :
      Built (.transactionSpecification (TransactionSpecification.build critical transactionId))
  | jsonRequest (critical : Bool) (controls : List Json.Value) :
      Built (.jsonRequest (JsonFormatted.build critical controls))
  | jsonResponse (critical : Bool) (controls : List Json.Value) :
      Built (.jsonResponse (JsonFormatted.build critical controls))

theorem delivered_of_built {t : KnownControl} (hb : t.Built) (hx : t.Exact)
    (hf : Payload.Fits t.toEnvelope.value) :
    registry.Delivers toEnvelope bare t := by
  cases hb with
  | excludeBranch h =>
    obtain ⟨rfl, hv⟩ := ExcludeBranch.valid_of_build h
    exact .ofExtension ExcludeBranch.extension excludeBranch (by simp [registry])
      (fun _ ↦ rfl) (fun _ ↦ rfl) (ExcludeBranch.carries hv _ hf.length_content_lt)
  | manageDsaIt critical =>
    exact .ofExtension ManageDsaIt.extension manageDsaIt (by simp [registry])
      (fun _ ↦ rfl) (fun _ ↦ rfl) (ManageDsaIt.carries critical _)
  | passwordPolicy h =>
    obtain ⟨rfl, hv⟩ := PasswordPolicy.valid_of_build h
    exact .ofExtension PasswordPolicy.extension passwordPolicy (by simp [registry])
      (fun _ ↦ rfl) (fun _ ↦ rfl) (PasswordPolicy.carries hv _ hf.length_content_lt)
  | transactionSpecification critical transactionId =>
    exact .ofExtension TransactionSpecification.extension transactionSpecification
      (by simp [registry]) (fun _ ↦ rfl) (fun _ ↦ rfl) (TransactionSpecification.carries critical _)
  | jsonRequest critical controls =>
    exact .ofExtension JsonFormatted.request jsonRequest (by simp [registry])
      (fun _ ↦ rfl) (fun _ ↦ rfl) (JsonFormatted.carries hx _ _ critical)
  | jsonResponse critical controls =>
    exact .ofExtension JsonFormatted.response jsonResponse (by simp [registry])
      (fun _ ↦ rfl) (fun _ ↦ rfl) (JsonFormatted.carries hx _ _ critical)

end KnownControl

namespace KnownRequest

inductive Built : KnownRequest → Prop
  | generatePassword {selection : PolicySelection} {passwords attempts : Int32}
      {x : Typed Unit GeneratePassword}
      (h : GeneratePassword.build selection passwords attempts = .ok x) :
      Built (.generatePassword x)
  | backupQuery (baseDn : String) : Built (.backupQuery (BackupQuery.build baseDn))
  | startTransaction : Built (.startTransaction StartTransaction.build)
  | endTransaction (transactionId : Bytes) (commit : Bool) :
      Built (.endTransaction (EndTransaction.build transactionId commit))

theorem delivered_of_built {t : KnownRequest} (hb : t.Built)
    (hf : Payload.Fits t.toEnvelope.value) :
    registry.Delivers toEnvelope bare t := by
  cases hb with
  | generatePassword h =>
    obtain ⟨rfl, hv⟩ := GeneratePassword.valid_of_build h
    exact .ofExtension GeneratePassword.extension generatePassword (by simp [registry])
      (fun _ ↦ rfl) (fun _ ↦ rfl)
      (GeneratePassword.carries hv () (GeneratePassword.length_content_lt hf))
  | backupQuery baseDn =>
    exact .ofExtension BackupQuery.extension backupQuery (by simp [registry])
      (fun _ ↦ rfl) (fun _ ↦ rfl) (BackupQuery.carries () _ hf.length_content_lt)
  | startTransaction =>
    exact .ofExtension StartTransaction.extension startTransaction (by simp [registry])
      (fun _ ↦ rfl) (fun _ ↦ rfl) (StartTransaction.carries () _)
  | endTransaction transactionId commit =>
    exact .ofExtension EndTransaction.extension endTransaction (by simp [registry])
      (fun _ ↦ rfl) (fun _ ↦ rfl) (EndTransaction.carries () _ hf.length_content_lt)

end KnownRequest

namespace KnownResult

inductive Built : KnownResult → Prop
  | generatedPasswords {policyDn : String} {passwords : List GeneratedPassword}
      {x : Typed OperationResult (Option GeneratedPasswords)}
      (h : GeneratedPasswords.build policyDn passwords = .ok x) : Built (.generatedPasswords x)
  | noPasswords {result : OperationResult} {x : Typed OperationResult (Option GeneratedPasswords)}
      (h : GeneratedPasswords.failure result = .ok x) : Built (.generatedPasswords x)
  | backupDescriptor (descriptor : Bytes) (properties : List String) :
      Built (.backupDescriptor (BackupDescriptor.build descriptor properties))
  | noDescriptor {result : OperationResult} {x : Typed OperationResult (Option BackupDescriptor)}
      (h : BackupDescriptor.failure result = .ok x) : Built (.backupDescriptor x)

theorem delivered_of_built {t : KnownResult} (hb : t.Built) (hf : Payload.Fits t.toEnvelope.value) :
    registry.Delivers toEnvelope bare t := by
  cases hb with
  | generatedPasswords h =>
    obtain ⟨rfl, hv⟩ := GeneratedPasswords.valid_of_build h
    exact .ofExtension GeneratedPasswords.extension generatedPasswords (by simp [registry])
      (fun _ ↦ rfl) (fun _ ↦ rfl) (GeneratedPasswords.carries_some hv _ hf.length_content_lt)
  | noPasswords h =>
    obtain ⟨rfl, hc⟩ := eq_new_of_failedResult h
    exact .ofExtension GeneratedPasswords.extension generatedPasswords (by simp [registry])
      (fun _ ↦ rfl) (fun _ ↦ rfl) (.failed GeneratedPasswords.decodeValue_eq rfl hc)
  | backupDescriptor descriptor properties =>
    exact .ofExtension BackupDescriptor.extension backupDescriptor (by simp [registry])
      (fun _ ↦ rfl) (fun _ ↦ rfl) (BackupDescriptor.carries_some _ _ hf.length_content_lt)
  | noDescriptor h =>
    obtain ⟨rfl, hc⟩ := eq_new_of_failedResult h
    exact .ofExtension BackupDescriptor.extension backupDescriptor (by simp [registry])
      (fun _ ↦ rfl) (fun _ ↦ rfl) (.failed BackupDescriptor.decodeValue_eq rfl hc)

end KnownResult

namespace KnownIntermediate

inductive Built : KnownIntermediate → Prop
  | missingChangelog (message : Option String) :
      Built (.missingChangelog (MissingChangelog.build message))

theorem delivered_of_built {t : KnownIntermediate} (hb : t.Built)
    (hf : Payload.Fits t.toEnvelope.value) :
    registry.Delivers toEnvelope bare t := by
  cases hb with
  | missingChangelog message =>
    exact .ofExtension MissingChangelog.extension missingChangelog (by simp [registry])
      (fun _ ↦ rfl) (fun _ ↦ rfl) (MissingChangelog.carries () _ hf.length_content_lt)

end KnownIntermediate

namespace StartedTransaction

inductive Made : StartedTransaction → Prop
  | build (transactionId : Bytes) : Made (build transactionId)
  | failure {result : OperationResult} {x : StartedTransaction} (h : failure result = .ok x) :
      Made x
  | received {r : ExtendedResult} {x : StartedTransaction} (h : ofResult r = .ok x) : Made x

/-- A transaction that was started has an identifier. -/
theorem Made.ofResult_toResult {x : StartedTransaction} (h : x.Made) :
    ofResult x.toResult = .ok x := by
  cases h with
  | build transactionId => rfl
  | failure h =>
    obtain ⟨hs, rfl⟩ := ite_error_eq_ok_iff.1 h
    exact if_neg fun hn ↦ hs hn.2
  | received h =>
    obtain ⟨hn, rfl⟩ := ite_error_eq_ok_iff.1 h
    exact if_neg hn

theorem ofResult_sent {x : StartedTransaction} (hm : x.Made) (hs : Sound x.toResult)
    (hl : (Envelope.encode x.toResult).length < 2 ^ 32) :
    (Envelope.decode (Envelope.encode x.toResult) >>= ofResult) = .ok x := by
  rw [Envelope.decode_encode hs hl, ok_bind, hm.ofResult_toResult]

end StartedTransaction

/-- Whatever can be built arrives as it was built: its octets are read as an envelope, and
the envelope is decoded to the same element. The result of the start of a transaction is
told by the request that it answers. -/
theorem elements_survive_wire :
    (∀ t : KnownControl, t.Built → t.Exact → (Envelope.encode t.toEnvelope).length < 2 ^ 32 →
      (Envelope.decode (Envelope.encode t.toEnvelope) >>= KnownControl.registry.decode).map
        KnownControl.bare = .ok t) ∧
    (∀ t : KnownRequest, t.Built → (Envelope.encode t.toEnvelope).length < 2 ^ 32 →
      (Envelope.decode (Envelope.encode t.toEnvelope) >>= KnownRequest.registry.decode).map
        KnownRequest.bare = .ok t) ∧
    (∀ t : KnownResult, t.Built → t.toEnvelope.result.matchedDn ≠ some "" →
      t.toEnvelope.result.diagnostic ≠ some "" →
      (Envelope.encode t.toEnvelope).length < 2 ^ 32 →
      (Envelope.decode (Envelope.encode t.toEnvelope) >>= KnownResult.registry.decode).map
        KnownResult.bare = .ok t) ∧
    (∀ t : KnownIntermediate, t.Built → (Envelope.encode t.toEnvelope).length < 2 ^ 32 →
      (Envelope.decode (Envelope.encode t.toEnvelope) >>= KnownIntermediate.registry.decode).map
        KnownIntermediate.bare = .ok t) ∧
    (∀ x : StartedTransaction, x.Made → x.result.matchedDn ≠ some "" →
      x.result.diagnostic ≠ some "" → (Envelope.encode x.toResult).length < 2 ^ 32 →
      (Envelope.decode (Envelope.encode x.toResult) >>= StartedTransaction.ofResult) = .ok x) := by
  refine ⟨fun t hb hx hl ↦ ?_, fun t hb hl ↦ ?_, fun t hb hm hd hl ↦ ?_, fun t hb hl ↦ ?_,
    fun x hx hm hd hl ↦ ?_⟩
  · have ht := KnownControl.delivered_of_built hb hx (Envelope.fits_value hl)
    exact ht.decode_sent (fun h ↦ ht.oid?_ne (by decide) (congrArg some h)) hl
  · have ht := KnownRequest.delivered_of_built hb (Envelope.fits_value hl)
    exact ht.decode_sent (fun h ↦ ht.oid?_ne (by decide) (congrArg some h)) hl
  · have ht := KnownResult.delivered_of_built hb (Envelope.fits_value hl)
    exact ht.decode_sent ⟨hm, hd⟩ hl
  · have ht := KnownIntermediate.delivered_of_built hb (Envelope.fits_value hl)
    exact ht.decode_sent trivial hl
  · exact StartedTransaction.ofResult_sent hx ⟨hm, hd⟩ hl

/-- A document inside a control, a request for the policy of a nameless entry, a failure, a
message and an identifier that are there but empty. -/
theorem elements_survive_wire_empty :
    let control : KnownControl :=
      .jsonResponse (JsonFormatted.build false [.object [("n", .ofInt (-1))]])
    let request : KnownRequest := .generatePassword (.new () ⟨.target "", 1, 5⟩)
    let result : KnownResult := .backupDescriptor (.new ⟨⟨32⟩, none, some "gone", ["ldap:"]⟩ none)
    let response : KnownIntermediate := .missingChangelog (MissingChangelog.build (some ""))
    let started := StartedTransaction.build []
    (control.Built ∧ control.Exact ∧ (Envelope.encode control.toEnvelope).length < 2 ^ 32 ∧
      (Envelope.decode (Envelope.encode control.toEnvelope) >>= KnownControl.registry.decode).map
        KnownControl.bare = .ok control) ∧
    (request.Built ∧ (Envelope.encode request.toEnvelope).length < 2 ^ 32 ∧
      (Envelope.decode (Envelope.encode request.toEnvelope) >>= KnownRequest.registry.decode).map
        KnownRequest.bare = .ok request) ∧
    (result.Built ∧ (Envelope.encode result.toEnvelope).length < 2 ^ 32 ∧
      (Envelope.decode (Envelope.encode result.toEnvelope) >>= KnownResult.registry.decode).map
        KnownResult.bare = .ok result) ∧
    (response.Built ∧ (Envelope.encode response.toEnvelope).length < 2 ^ 32 ∧
      (Envelope.decode (Envelope.encode response.toEnvelope) >>=
        KnownIntermediate.registry.decode).map KnownIntermediate.bare = .ok response) ∧
    (started.Made ∧ (Envelope.encode started.toResult).length < 2 ^ 32 ∧
      (Envelope.decode (Envelope.encode started.toResult) >>= StartedTransaction.ofResult) =
        .ok started) := by
  intro control request result response started
  have hc : control.Built := .jsonResponse false _
  have hx : control.Exact := by
    intro v hv
    rw [List.mem_singleton.1 hv]
    refine ⟨.object (by decide) ?_, by decide⟩
    rw [List.forall_mem_singleton]
    exact .int (by decide) (by decide)
  have hq : request.Built :=
    .generatePassword (show GeneratePassword.build (.target "") 1 5 = .ok _ from rfl)
  have hr : result.Built :=
    .noDescriptor
      (show BackupDescriptor.failure ⟨⟨32⟩, none, some "gone", ["ldap:"]⟩ = .ok _ from rfl)
  have hi : response.Built := .missingChangelog _
  have hs : started.Made := .build []
  have hcl : (Envelope.encode control.toEnvelope).length < 2 ^ 32 := by decide +kernel
  have hql : (Envelope.encode request.toEnvelope).length < 2 ^ 32 := by decide
  have hrl : (Envelope.encode result.toEnvelope).length < 2 ^ 32 := by decide +kernel
  have hil : (Envelope.encode response.toEnvelope).length < 2 ^ 32 := by decide
  have hsl : (Envelope.encode started.toResult).length < 2 ^ 32 := by decide +kernel
  exact ⟨⟨hc, hx, hcl, elements_survive_wire.1 control hc hx hcl⟩,
    ⟨hq, hql, elements_survive_wire.2.1 request hq hql⟩,
    ⟨hr, hrl, elements_survive_wire.2.2.1 result hr (by decide) (by decide) hrl⟩,
    ⟨hi, hil, elements_survive_wire.2.2.2.1 response hi hil⟩,
    ⟨hs, hsl, elements_survive_wire.2.2.2.2 started hs (by decide) (by decide) hsl⟩⟩

end LdapCodec
