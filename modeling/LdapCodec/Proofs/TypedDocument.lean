import LdapCodec.Proofs.Rebuilding
import LdapCodec.Proofs.Wire

namespace LdapCodec

open Json
open Documented.Lawful (Plain)
open Envelope (oid? header value? withValue)

namespace Meaning

section

variable {E H T : Type} [Envelope E H]

/-- Ways to come by an element: it was built, or read in one form or the other. -/
inductive Obtained (m : Meaning E H T) (Built : T → Prop) : Typed H m.payload → Prop
  | built {t : Typed H m.payload} (h : Built (m.wrap t)) : m.Obtained Built t
  | decoded {t : Typed H m.payload} {e : E} (h : m.extension.decode e = .ok t) : m.Obtained Built t
  | structured {t : Typed H m.payload} {e : E} {v : Value} {strict : Bool}
      (h : m.extension.ofJson e v strict = .ok t) : m.Obtained Built t

theorem Lossless.fits {back : T → E} {m : Meaning E H T} {t : Typed H m.payload}
    [Envelope.Lawful E] (hm : m.Lossless back)
    (hl : (Envelope.encode (m.extension.toEnvelope t)).length < 2 ^ 32) :
    Payload.Fits (value? (back (m.wrap t))) := by
  rw [hm.back_wrap]
  exact Envelope.fits_value hl

/-- A meaning that a registry has an entry for. Its elements are one case of their own, its
structured values are read as they are written, and its identifier is numeric. -/
structure Known (r : Registry E T) (bare : T → T) (m : Meaning E H T) : Prop where
  mem_entries : m.entry ∈ r.entries
  bare_wrap : ∀ t, bare (m.wrap t) = m.wrap t.bare
  wrap_injective : Function.Injective m.wrap
  restores : m.extension.Restores
  isValid_oid : Oid.isValid m.extension.oid = true

namespace Known

variable {r : Registry E T} {back : T → E} {bare : T → T} {writable Built : T → Prop}
  {m : Meaning E H T} {t : Typed H m.payload}

theorem admits_oid (hk : m.Known r bare) (strict : Bool) :
    Document.Admits strict (some m.extension.oid) := by
  rintro o ho
  cases ho
  refine ⟨fun hn ↦ ?_, fun _ ↦ hk.isValid_oid⟩
  have hvalid := hk.isValid_oid
  rw [hn] at hvalid
  exact absurd hvalid (by decide)

theorem decode_of_entry (hk : m.Known r bare) {e : E}
    (h : (m.entry.decode e).map bare = .ok (m.wrap t)) :
    ∃ u, m.extension.decode e = .ok u ∧ u.bare = t := by
  obtain ⟨w, hw, hbare⟩ := map_eq_ok.1 h
  obtain ⟨u, hu, rfl⟩ := map_eq_ok.1 hw
  rw [hk.bare_wrap] at hbare
  exact ⟨u, hu, hk.wrap_injective hbare⟩

/-- However an element came about, its envelope is decoded to the same element. -/
theorem decode_toEnvelope (hk : m.Known r bare) (hl : m.Lossless back)
    (hb : ∀ t, Built t → writable t → r.Delivers back bare t)
    (hr : ∀ entry ∈ r.entries, entry.Rebuilds bare writable) (ho : m.Obtained Built t)
    (hw : writable (m.wrap t)) :
    ∃ u, m.extension.decode (m.extension.toEnvelope t) = .ok u ∧ u.Same t := by
  have hoid : oid? (m.extension.toEnvelope t) = some m.entry.oid := Extension.oid?_toEnvelope t
  cases ho with
  | built h =>
    obtain ⟨entry, hm, ho, hd⟩ := hb _ h hw
    rw [hl.back_wrap] at ho hd
    have hentry : some m.entry = some entry :=
      (Registry.entry?_of_mem hk.mem_entries hoid).symm.trans (Registry.entry?_of_mem hm ho)
    rw [← Option.some.inj hentry] at hd
    obtain ⟨u, hu, rfl⟩ := hk.decode_of_entry hd
    exact ⟨u, hu, rfl, rfl⟩
  | decoded h =>
    rw [hl.extension.toEnvelope_of_decode h]
    exact ⟨t, h, rfl, rfl⟩
  | @structured e v strict h =>
    have hdecode : (m.extension.ofJson e v strict).map m.wrap = .ok (m.wrap t) := by
      rw [h, Except.map]
    have hrebuild : (m.extension.ofJson e v strict).map m.extension.toEnvelope =
        .ok (m.extension.toEnvelope t) := by
      rw [h, Except.map]
    obtain ⟨err, hd, _⟩ | ⟨w, e', hd, he, _, hread⟩ := hr m.entry hk.mem_entries _ e v strict rfl
    · cases hd.symm.trans hdecode
    · cases hd.symm.trans hdecode
      cases he.symm.trans hrebuild
      rw [hk.bare_wrap] at hread
      obtain ⟨u, hu, hbare⟩ := hk.decode_of_entry (hread hw)
      exact ⟨u, hu, Typed.bare_eq_bare_iff.1 hbare⟩

variable [Documented E]

theorem toDocument_eq (hk : m.Known r bare) {e : E} (ho : oid? e = some m.extension.oid) :
    r.toDocument e = Document.ofEnvelope e (some m.extension.name)
      ((m.extension.decode e).toOption.bind m.extension.toJson?) := by
  have hname : r.name? m.extension.oid = some m.extension.name :=
    Registry.name?_of_mem hk.mem_entries ho
  have hj := Registry.toJson?_of_mem hk.mem_entries ho
  simp only [Registry.toDocument, ho, Option.map_some, hname, Option.getD_some, hj]
  cases hv : value? e with
  | none => exact (Document.ofEnvelope_of_value?_eq_none hv _ _).symm
  | some bytes => rfl

end Known

variable [Documented E]

/-- The document of an element is the one that a registry makes of its envelope, and is read
as the element again. -/
structure Agrees (m : Meaning E H T) (r : Registry E T) (t : Typed H m.payload) : Prop where
  toDocument_eq : m.extension.toDocument t = r.toDocument (m.extension.toEnvelope t)
  read_back : ∀ strict, ∃ u,
    m.extension.ofDocument strict (m.extension.toDocument t) = .ok u ∧ u.Same t

/-- Documents with the identifier of a meaning are read by a registry as by the meaning
itself, which refuses those with another identifier. -/
structure Shares (m : Meaning E H T) (r : Registry E T) : Prop where
  ofDocument_eq : ∀ strict document,
    (∀ parsed, Document.parse (E := E) strict document = .ok parsed →
      oid? parsed.envelope = some m.extension.oid) →
    (m.extension.ofDocument strict document).map m.wrap = r.ofDocument strict document
  ofDocument_other : ∀ strict document parsed,
    Document.parse (E := E) strict document = .ok parsed →
    oid? parsed.envelope ≠ some m.extension.oid →
    ∃ message, m.extension.ofDocument strict document = .error (.decoding message)

namespace Known

variable {r : Registry E T} {back : T → E} {bare : T → T} {m : Meaning E H T}
  {t : Typed H m.payload}

theorem shares (hk : m.Known r bare) : m.Shares r where
  ofDocument_eq strict document h := by
    unfold Extension.ofDocument Registry.ofDocument Registry.ofParsed
    cases hp : Document.parse (E := E) strict document with
    | error err => rfl
    | ok parsed =>
      have ho := h parsed hp
      rw [ok_bind, ok_bind]
      cases parsed.structured with
      | none => exact (Registry.decode_of_mem hk.mem_entries ho).symm
      | some v =>
        have hentry := Registry.entry?_of_mem hk.mem_entries ho
        simp only [Registry.ofJson, Registry.form?_of_entry hentry rfl, ok_bind]
  ofDocument_other strict document parsed hp ho := by
    obtain ⟨message, hc⟩ := Extension.checkOid_eq_error ho m.extension.name
    unfold Extension.ofDocument
    rw [hp, ok_bind]
    cases parsed.structured with
    | none => exact ⟨message, by simp only [Extension.decode, hc]; rfl⟩
    | some v =>
      simp only [Extension.ofJson]
      cases m.extension.structured with
      | none => exact ⟨_, rfl⟩
      | some form => exact ⟨message, by simp only [hc]; rfl⟩

variable [Documented.Keyed E] [Documented.Lawful E]

theorem read_back (hk : m.Known r bare) {u : Typed H m.payload}
    (hu : m.extension.decode (m.extension.toEnvelope t) = .ok u) (hs : u.Same t)
    (hp : Plain (m.extension.toEnvelope t)) (strict : Bool) :
    ∃ u, m.extension.ofDocument strict (m.extension.toDocument t) = .ok u ∧ u.Same t := by
  let e := m.extension.toEnvelope t
  have ho : oid? e = some m.extension.oid := Extension.oid?_toEnvelope t
  have ha : Document.Admits strict (oid? e) := ho ▸ hk.admits_oid strict
  have hocts (h : m.extension.toDocument t = Document.ofEnvelope e (some m.extension.name) none) :
      ∃ u, m.extension.ofDocument strict (m.extension.toDocument t) = .ok u ∧ u.Same t := by
    rw [Extension.ofDocument, h, Document.parse_ofEnvelope hp ha, ok_bind]
    exact ⟨u, hu, hs⟩
  cases hv : value? e with
  | none => exact hocts (Document.ofEnvelope_of_value?_eq_none hv _ _)
  | some bytes =>
    cases hj : m.extension.toJson? t with
    | none => exact hocts (by rw [Extension.toDocument, hj])
    | some v =>
      obtain ⟨_, hpayload, _, _⟩ := Extension.decode_eq_ok hu
      obtain ⟨form, hf, hw⟩ := Option.bind_eq_some_iff.1 hj
      rw [← hs.2] at hw
      obtain ⟨⟨ms, rfl⟩, hread⟩ := hk.restores.ofJson_written hpayload hf hw
      have hvalue : (value? e).isSome := by
        rw [hv]
        rfl
      rw [Extension.ofDocument, Extension.toDocument, hj,
        Document.parse_ofEnvelope_structured hp ha hvalue ms, ok_bind]
      exact ⟨_, hread e strict ho, Extension.header_toEnvelope t, hs.2⟩

theorem agrees (hk : m.Known r bare)
    (hd : ∃ u, m.extension.decode (m.extension.toEnvelope t) = .ok u ∧ u.Same t)
    (hp : Plain (m.extension.toEnvelope t)) : m.Agrees r t := by
  obtain ⟨u, hu, hs⟩ := hd
  have hj : m.extension.toJson? u = m.extension.toJson? t := by
    rw [Extension.toJson?, hs.2, Extension.toJson?]
  refine ⟨?_, hk.read_back hu hs hp⟩
  rw [hk.toDocument_eq (Extension.oid?_toEnvelope t), hu, Extension.toDocument, ← hj]
  rfl

theorem agrees_of_obtained {writable Built : T → Prop} (hk : m.Known r bare)
    (hl : m.Lossless back)
    (hb : ∀ t, Built t → writable t → r.Delivers back bare t)
    (hr : ∀ entry ∈ r.entries, entry.Rebuilds bare writable) (ho : m.Obtained Built t)
    (hw : writable (m.wrap t)) (hp : Plain (m.extension.toEnvelope t)) : m.Agrees r t :=
  hk.agrees (hk.decode_toEnvelope hl hb hr ho hw) hp

end Known

end

end Meaning

theorem KnownControl.known : ∀ m ∈ meanings, m.Known registry bare := by
  simp only [meanings, List.forall_mem_cons]
  refine ⟨⟨?_, fun _ ↦ rfl, fun _ _ ↦ excludeBranch.inj,
      ExcludeBranch.extension_restores, by decide⟩,
    ⟨?_, fun _ ↦ rfl, fun _ _ ↦ manageDsaIt.inj,
      ManageDsaIt.extension_restores, by decide⟩,
    ⟨?_, fun _ ↦ rfl, fun _ _ ↦ passwordPolicy.inj,
      PasswordPolicy.extension_restores, by decide⟩,
    ⟨?_, fun _ ↦ rfl, fun _ _ ↦ transactionSpecification.inj,
      TransactionSpecification.extension_restores, by decide⟩,
    ⟨?_, fun _ ↦ rfl, fun _ _ ↦ jsonRequest.inj,
      JsonFormatted.extension_restores _ _, by decide⟩,
    ⟨?_, fun _ ↦ rfl, fun _ _ ↦ jsonResponse.inj,
      JsonFormatted.extension_restores _ _, by decide⟩, by simp⟩
  all_goals simp [registry, Meaning.entry]

theorem KnownRequest.known : ∀ m ∈ meanings, m.Known registry bare := by
  simp only [meanings, List.forall_mem_cons]
  refine ⟨⟨?_, fun _ ↦ rfl, fun _ _ ↦ generatePassword.inj,
      GeneratePassword.extension_restores, by decide⟩,
    ⟨?_, fun _ ↦ rfl, fun _ _ ↦ backupQuery.inj,
      BackupQuery.extension_restores, by decide⟩,
    ⟨?_, fun _ ↦ rfl, fun _ _ ↦ startTransaction.inj,
      StartTransaction.extension_restores, by decide⟩,
    ⟨?_, fun _ ↦ rfl, fun _ _ ↦ endTransaction.inj,
      EndTransaction.extension_restores, by decide⟩, by simp⟩
  all_goals simp [registry, Meaning.entry]

theorem KnownResult.known : ∀ m ∈ meanings, m.Known registry bare := by
  simp only [meanings, List.forall_mem_cons]
  refine ⟨⟨?_, fun _ ↦ rfl, fun _ _ ↦ generatedPasswords.inj,
      GeneratedPasswords.extension_restores, by decide⟩,
    ⟨?_, fun _ ↦ rfl, fun _ _ ↦ backupDescriptor.inj,
      BackupDescriptor.extension_restores, by decide⟩, by simp⟩
  all_goals simp [registry, Meaning.entry]

theorem KnownIntermediate.known : ∀ m ∈ meanings, m.Known registry bare := by
  simp only [meanings, List.forall_mem_cons]
  refine ⟨⟨?_, fun _ ↦ rfl, fun _ _ ↦ missingChangelog.inj,
      MissingChangelog.extension_restores, by decide⟩, by simp⟩
  all_goals simp [registry, Meaning.entry]

/-- An element has one document, whether it is asked itself or its envelope is given to the
registry, and comes back from it. The registry and the meaning read alike the documents that
name the identifier of the meaning, and the meaning refuses all others. -/
theorem typed_documents_agree :
    (∀ m ∈ KnownControl.meanings, m.Shares KnownControl.registry ∧
      ∀ t, m.Obtained KnownControl.Built t → (m.wrap t).Exact →
        (Envelope.encode (m.extension.toEnvelope t)).length < 2 ^ 32 →
        m.Agrees KnownControl.registry t) ∧
    (∀ m ∈ KnownRequest.meanings, m.Shares KnownRequest.registry ∧
      ∀ t, m.Obtained KnownRequest.Built t →
        (Envelope.encode (m.extension.toEnvelope t)).length < 2 ^ 32 →
        m.Agrees KnownRequest.registry t) ∧
    (∀ m ∈ KnownResult.meanings, m.Shares KnownResult.registry ∧
      ∀ t, m.Obtained KnownResult.Built t → t.header.matchedDn ≠ some "" →
        t.header.diagnostic ≠ some "" →
        (Envelope.encode (m.extension.toEnvelope t)).length < 2 ^ 32 →
        m.Agrees KnownResult.registry t) ∧
    (∀ m ∈ KnownIntermediate.meanings, m.Shares KnownIntermediate.registry ∧
      ∀ t, m.Obtained KnownIntermediate.Built t →
        (Envelope.encode (m.extension.toEnvelope t)).length < 2 ^ 32 →
        m.Agrees KnownIntermediate.registry t) := by
  refine ⟨fun m hm ↦ ?_, fun m hm ↦ ?_, fun m hm ↦ ?_, fun m hm ↦ ?_⟩
  · have hk := KnownControl.known m hm
    have hm := KnownControl.lossless m hm
    refine ⟨hk.shares, fun t ho hx hl ↦ ?_⟩
    refine hk.agrees_of_obtained hm ?_ KnownControl.rebuilds ho ⟨hm.fits hl, hx⟩ trivial
    exact fun _ hb hw ↦ KnownControl.delivered_of_built hb hw.2 hw.1
  · have hk := KnownRequest.known m hm
    have hm := KnownRequest.lossless m hm
    refine ⟨hk.shares, fun t ho hl ↦ ?_⟩
    refine hk.agrees_of_obtained hm ?_ KnownRequest.rebuilds ho (hm.fits hl) trivial
    exact fun _ ↦ KnownRequest.delivered_of_built
  · have hk := KnownResult.known m hm
    have hm := KnownResult.lossless m hm
    refine ⟨hk.shares, fun t ho hmd hd hl ↦ ?_⟩
    refine hk.agrees_of_obtained hm ?_ KnownResult.rebuilds ho (hm.fits hl) ⟨hmd, hd⟩
    exact fun _ ↦ KnownResult.delivered_of_built
  · have hk := KnownIntermediate.known m hm
    have hm := KnownIntermediate.lossless m hm
    refine ⟨hk.shares, fun t ho hl ↦ ?_⟩
    refine hk.agrees_of_obtained hm ?_ KnownIntermediate.rebuilds ho (hm.fits hl) trivial
    exact fun _ ↦ KnownIntermediate.delivered_of_built

/-- A policy whose length takes an octet more than it needs, a request that was read from a
structured value, a failure and an empty message, and documents that name another identifier
and the right one. -/
theorem typed_documents_agree_padded :
    let policy : Meaning Control Bool KnownControl := ⟨PasswordPolicy.extension, .passwordPolicy⟩
    let generate : Meaning ExtendedRequest Unit KnownRequest :=
      ⟨GeneratePassword.extension, .generatePassword⟩
    let backup : Meaning ExtendedResult OperationResult KnownResult :=
      ⟨BackupDescriptor.extension, .backupDescriptor⟩
    let missing : Meaning IntermediateResponse Unit KnownIntermediate :=
      ⟨MissingChangelog.extension, .missingChangelog⟩
    let c : Control := ⟨"1.3.6.1.4.1.42.2.27.8.5.1", true, some [0x30, 0x81, 3, 0x81, 1, 1]⟩
    let control : Typed Bool PasswordPolicy := ⟨true, ⟨none, some .accountLocked⟩, .of c.value⟩
    let request : Typed Unit GeneratePassword := .new () ⟨.policy "", 1, 5⟩
    let failure : OperationResult := ⟨⟨32⟩, none, some "gone", ["ldap:"]⟩
    let result : Typed OperationResult (Option BackupDescriptor) := .new failure none
    let response : Typed Unit MissingChangelog := MissingChangelog.build (some "")
    let other : Value := .object [("oid", .string "1.2.3")]
    let named : Value :=
      .object [("oid", .string "1.3.6.1.4.1.30221.2.6.12"), ("value-json", .object [])]
    (policy.Obtained KnownControl.Built control ∧
      (Envelope.encode (policy.extension.toEnvelope control)).length < 2 ^ 32 ∧
      policy.Agrees KnownControl.registry control) ∧
    (generate.Obtained KnownRequest.Built request ∧
      (Envelope.encode (generate.extension.toEnvelope request)).length < 2 ^ 32 ∧
      generate.Agrees KnownRequest.registry request) ∧
    (backup.Obtained KnownResult.Built result ∧ failure.matchedDn ≠ some "" ∧
      failure.diagnostic ≠ some "" ∧
      (Envelope.encode (backup.extension.toEnvelope result)).length < 2 ^ 32 ∧
      backup.Agrees KnownResult.registry result) ∧
    (missing.Obtained KnownIntermediate.Built response ∧
      (Envelope.encode (missing.extension.toEnvelope response)).length < 2 ^ 32 ∧
      missing.Agrees KnownIntermediate.registry response) ∧
    (∃ message, missing.extension.ofDocument true other = .error (.decoding message)) ∧
    (missing.extension.ofDocument false named).map missing.wrap =
      KnownIntermediate.registry.ofDocument false named := by
  intro policy generate backup missing c control request failure result response other named
  have hc : policy.Obtained KnownControl.Built control :=
    .decoded (show policy.extension.decode c = .ok control from rfl)
  have hq : generate.Obtained KnownRequest.Built request :=
    .structured (show generate.extension.ofJson ⟨"1.3.6.1.4.1.30221.2.6.62", none⟩
      (.object [("password-policy-dn", .string "")]) true = .ok request from rfl)
  have hr : backup.Obtained KnownResult.Built result :=
    .built (.noDescriptor (show BackupDescriptor.failure failure = .ok result from rfl))
  have hi : missing.Obtained KnownIntermediate.Built response := .built (.missingChangelog _)
  have hcl : (Envelope.encode (policy.extension.toEnvelope control)).length < 2 ^ 32 := by
    decide +kernel
  have hql : (Envelope.encode (generate.extension.toEnvelope request)).length < 2 ^ 32 := by
    decide +kernel
  have hrl : (Envelope.encode (backup.extension.toEnvelope result)).length < 2 ^ 32 := by
    decide +kernel
  have hil : (Envelope.encode (missing.extension.toEnvelope response)).length < 2 ^ 32 := by
    decide +kernel
  obtain ⟨hcontrols, hrequests, hresults, hresponses⟩ := typed_documents_agree
  obtain ⟨-, hcontrol⟩ := hcontrols policy (by simp [KnownControl.meanings, policy])
  obtain ⟨-, hrequest⟩ := hrequests generate (by simp [KnownRequest.meanings, generate])
  obtain ⟨-, hresult⟩ := hresults backup (by simp [KnownResult.meanings, backup])
  obtain ⟨hshares, hresponse⟩ := hresponses missing (by simp [KnownIntermediate.meanings, missing])
  refine ⟨⟨hc, hcl, hcontrol control hc trivial hcl⟩, ⟨hq, hql, hrequest request hq hql⟩,
    ⟨hr, by decide, by decide, hrl, hresult result hr (by decide) (by decide) hrl⟩,
    ⟨hi, hil, hresponse response hi hil⟩, ?_, ?_⟩
  · exact hshares.ofDocument_other true other ⟨⟨some "1.2.3", none⟩, none, none⟩ rfl (by decide)
  · refine hshares.ofDocument_eq false named ?_
    rintro _ ⟨⟩
    rfl

end LdapCodec
