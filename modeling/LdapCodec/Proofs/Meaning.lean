import LdapCodec.Proofs.Dispatch
import LdapCodec.Proofs.Document
import LdapCodec.Proofs.Structured

namespace LdapCodec

open Json
open Documented.Lawful (Plain)
open Envelope (oid? header value? withValue)

def Typed.bare {H α : Type} (x : Typed H α) : Typed H α := .new x.header x.payload

theorem Typed.bare_eq_bare_iff {H α : Type} {x y : Typed H α} : x.bare = y.bare ↔ x.Same y := by
  simp [bare, new, Same]

namespace KnownControl

def bare : KnownControl → KnownControl
  | excludeBranch x => excludeBranch x.bare
  | manageDsaIt x => manageDsaIt x.bare
  | passwordPolicy x => passwordPolicy x.bare
  | transactionSpecification x => transactionSpecification x.bare
  | jsonRequest x => jsonRequest x.bare
  | jsonResponse x => jsonResponse x.bare
  | generic c => generic c

end KnownControl

namespace KnownRequest

def bare : KnownRequest → KnownRequest
  | generatePassword x => generatePassword x.bare
  | backupQuery x => backupQuery x.bare
  | startTransaction x => startTransaction x.bare
  | endTransaction x => endTransaction x.bare
  | generic r => generic r

end KnownRequest

namespace KnownResult

def bare : KnownResult → KnownResult
  | generatedPasswords x => generatedPasswords x.bare
  | backupDescriptor x => backupDescriptor x.bare
  | generic r => generic r

end KnownResult

namespace KnownIntermediate

def bare : KnownIntermediate → KnownIntermediate
  | missingChangelog x => missingChangelog x.bare
  | generic r => generic r

end KnownIntermediate

/-- What an element writes in structured form is read as the element again, with the header of
any envelope. -/
theorem Extension.Restores.ofJson_written {E H α : Type} [Envelope E H] {x : Extension E H α}
    (hx : x.Restores) {hd : H} {value : Option Bytes} {a : α} {form : Structured α} {v : Value}
    (hp : x.decodeValue hd value = .ok a) (hf : x.structured = some form)
    (hv : form.write a = some v) :
    (∃ ms, v = .object ms) ∧ ∀ (e : E) (strict : Bool), oid? e = some x.oid →
      x.ofJson (withValue e none) v strict = .ok (.new (header e) a) := by
  obtain ⟨ms, rfl, hk, hr⟩ := hx hd value a form hp hf v hv
  refine ⟨⟨ms, rfl⟩, fun e strict ho ↦ ?_⟩
  have hc : Envelope.checkOid (withValue e none) x.oid x.name = .ok () := by
    rw [checkOid_eq_ok_iff, Envelope.oid?_withValue, ho]
  simp only [ofJson, hf, hc, checkFields_object strict x.name hk, hr strict, ok_bind,
    Envelope.header_withValue]

namespace Registry

variable {E H T α : Type} [Envelope E H] {bare : T → T}

/-- The structured values that an entry writes are objects, and stand for what the entry
decodes. -/
def Entry.Faithful (bare : T → T) (entry : Entry E T) : Prop :=
  ∀ e form v strict, entry.form = some form → form.write? e = some v →
    (∃ ms, v = .object ms) ∧
      (form.decode (withValue e none) v strict).map bare = (entry.decode e).map bare

theorem Entry.Faithful.ofExtension {x : Extension E H α} {wrap : Typed H α → T}
    (hx : x.Restores) (hw : ∀ t, bare (wrap t) = wrap t.bare) :
    (Entry.ofExtension x wrap).Faithful bare := by
  rintro e _ v strict ⟨⟩ hv
  dsimp only at hv
  split at hv
  · rename_i t ht
    obtain ⟨form, hf, hv⟩ := Option.bind_eq_some_iff.1 hv
    obtain ⟨ho, hp, hh, _⟩ := Extension.decode_eq_ok ht
    obtain ⟨hobject, hj⟩ := hx.ofJson_written (E := E) hp hf hv
    refine ⟨hobject, ?_⟩
    simp only [Entry.ofExtension, ht, hj e strict ho, Except.map, hw, Typed.bare, hh]
    rfl
  · simp at hv

theorem form?_withValue (r : Registry E T) (e : E) (value : Option Bytes) :
    r.form? (withValue e value) = r.form? e := by
  simp only [form?, Registry.entry?, Envelope.oid?_withValue]

/-- The structured value of an envelope stands for what the envelope decodes to. -/
theorem ofJson_of_toJson? {r : Registry E T} (hr : ∀ entry ∈ r.entries, entry.Faithful bare)
    {e : E} {v : Value} (h : r.toJson? e = some v) (strict : Bool) :
    (∃ ms, v = .object ms) ∧
      (r.ofJson (withValue e none) v strict).map bare = (r.decode e).map bare := by
  obtain ⟨entry, form, he, hf, hw⟩ := toJson?_eq_some h
  obtain ⟨hobject, hd⟩ := hr entry (entry?_eq_some he).1 e form v strict hf hw
  refine ⟨hobject, ?_⟩
  rw [ofJson, form?_withValue, form?_of_entry he hf, ok_bind, hd, decode_eq_of_entry he]

variable [Documented E] [Documented.Keyed E] [Documented.Lawful E]

/-- The document of an envelope is read under the header of the envelope, and means what the
envelope decodes to. -/
theorem parse_toDocument {r : Registry E T} (hr : ∀ entry ∈ r.entries, entry.Faithful bare)
    {e : E} {strict : Bool} (hp : Plain e) (ha : Document.Admits strict (oid? e)) :
    ∃ parsed, Document.parse (E := E) strict (r.toDocument e) = .ok parsed ∧
      oid? parsed.envelope = oid? e ∧ header parsed.envelope = header e ∧
      (r.ofParsed strict parsed).map bare = (r.decode e).map bare := by
  unfold toDocument
  dsimp only
  split
  · rename_i hv
    cases hs : r.toJson? e with
    | none => exact ⟨_, Document.parse_ofEnvelope hp ha, rfl, rfl, rfl⟩
    | some v =>
      obtain ⟨⟨ms, rfl⟩, hd⟩ := ofJson_of_toJson? hr hs strict
      exact ⟨_, Document.parse_ofEnvelope_structured hp ha hv ms, Envelope.oid?_withValue e none,
        Envelope.header_withValue e none, hd⟩
  · exact ⟨_, Document.parse_ofEnvelope hp ha, rfl, rfl, rfl⟩

theorem ofDocument_toDocument {r : Registry E T} (hr : ∀ entry ∈ r.entries, entry.Faithful bare)
    {e : E} {strict : Bool} (hp : Plain e) (ha : Document.Admits strict (oid? e)) :
    (r.ofDocument strict (r.toDocument e)).map bare = (r.decode e).map bare := by
  obtain ⟨parsed, hparse, _, _, hd⟩ := parse_toDocument hr hp ha
  rw [ofDocument, hparse, ok_bind, hd]

end Registry

theorem KnownControl.faithful : ∀ entry ∈ registry.entries, entry.Faithful bare := by
  simp only [registry, List.forall_mem_cons]
  exact ⟨.ofExtension ExcludeBranch.extension_restores fun _ ↦ rfl,
    .ofExtension ManageDsaIt.extension_restores fun _ ↦ rfl,
    .ofExtension PasswordPolicy.extension_restores fun _ ↦ rfl,
    .ofExtension TransactionSpecification.extension_restores fun _ ↦ rfl,
    .ofExtension (JsonFormatted.extension_restores _ _) fun _ ↦ rfl,
    .ofExtension (JsonFormatted.extension_restores _ _) fun _ ↦ rfl, by simp⟩

theorem KnownRequest.faithful : ∀ entry ∈ registry.entries, entry.Faithful bare := by
  simp only [registry, List.forall_mem_cons]
  exact ⟨.ofExtension GeneratePassword.extension_restores fun _ ↦ rfl,
    .ofExtension BackupQuery.extension_restores fun _ ↦ rfl,
    .ofExtension StartTransaction.extension_restores fun _ ↦ rfl,
    .ofExtension EndTransaction.extension_restores fun _ ↦ rfl, by simp⟩

theorem KnownResult.faithful : ∀ entry ∈ registry.entries, entry.Faithful bare := by
  simp only [registry, List.forall_mem_cons]
  exact ⟨.ofExtension GeneratedPasswords.extension_restores fun _ ↦ rfl,
    .ofExtension BackupDescriptor.extension_restores fun _ ↦ rfl, by simp⟩

theorem KnownIntermediate.faithful : ∀ entry ∈ registry.entries, entry.Faithful bare := by
  simp only [registry, List.forall_mem_cons]
  exact ⟨.ofExtension MissingChangelog.extension_restores fun _ ↦ rfl, by simp⟩

/-- Going through a document does not change what an envelope means: the document is read
as the element that the envelope decodes to, or refused with the error that the envelope is
refused with. Only the octets of the value may be others. -/
theorem document_keeps_meaning :
    (∀ (c : Control) (strict : Bool), Document.Admits strict (some c.oid) →
      (KnownControl.registry.ofDocument strict (KnownControl.registry.toDocument c)).map
          KnownControl.bare =
        (KnownControl.registry.decode c).map KnownControl.bare) ∧
    (∀ (q : ExtendedRequest) (strict : Bool), Document.Admits strict (some q.oid) →
      (KnownRequest.registry.ofDocument strict (KnownRequest.registry.toDocument q)).map
          KnownRequest.bare =
        (KnownRequest.registry.decode q).map KnownRequest.bare) ∧
    (∀ (r : ExtendedResult) (strict : Bool), Document.Admits strict r.oid →
      r.result.matchedDn ≠ some "" → r.result.diagnostic ≠ some "" →
      (KnownResult.registry.ofDocument strict (KnownResult.registry.toDocument r)).map
          KnownResult.bare =
        (KnownResult.registry.decode r).map KnownResult.bare) ∧
    (∀ (r : IntermediateResponse) (strict : Bool), Document.Admits strict r.oid →
      (KnownIntermediate.registry.ofDocument strict (KnownIntermediate.registry.toDocument r)).map
          KnownIntermediate.bare =
        (KnownIntermediate.registry.decode r).map KnownIntermediate.bare) :=
  ⟨fun _ _ ha ↦ Registry.ofDocument_toDocument KnownControl.faithful trivial ha,
    fun _ _ ha ↦ Registry.ofDocument_toDocument KnownRequest.faithful trivial ha,
    fun _ _ ha hm hd ↦ Registry.ofDocument_toDocument KnownResult.faithful ⟨hm, hd⟩ ha,
    fun _ _ ha ↦ Registry.ofDocument_toDocument KnownIntermediate.faithful trivial ha⟩

/-- A policy whose length takes an octet more than it needs, and a result without the value
that it should have, in strict documents. -/
theorem document_keeps_meaning_padded :
    let c : Control := ⟨"1.3.6.1.4.1.42.2.27.8.5.1", true, some [0x30, 0x81, 3, 0x81, 1, 1]⟩
    let t : Typed Bool PasswordPolicy := ⟨true, ⟨none, some .accountLocked⟩, .nothing⟩
    let r : ExtendedResult :=
      ⟨⟨.success, some "dc=example", none, []⟩, some "1.3.6.1.4.1.30221.2.6.63", none⟩
    (Document.Admits true (some c.oid) ∧
      (KnownControl.registry.ofDocument true (KnownControl.registry.toDocument c)).map
        KnownControl.bare = .ok (.passwordPolicy t)) ∧
    (Document.Admits true r.oid ∧ r.result.matchedDn ≠ some "" ∧ r.result.diagnostic ≠ some "" ∧
      (KnownResult.registry.ofDocument true (KnownResult.registry.toDocument r)).map
        KnownResult.bare = .error (.missingValue
          "Successful Generate Password Extended Result requires a value")) := by
  intro c t r
  have hc : Document.Admits true (some c.oid) := by
    rintro _ ⟨⟩
    exact ⟨by decide, fun _ ↦ by decide⟩
  have hr : Document.Admits true r.oid := by
    rintro _ ⟨⟩
    exact ⟨by decide, fun _ ↦ by decide⟩
  exact ⟨⟨hc, document_keeps_meaning.1 c true hc⟩,
    ⟨hr, by decide, by decide, document_keeps_meaning.2.2.1 r true hr (by decide) (by decide)⟩⟩

end LdapCodec
