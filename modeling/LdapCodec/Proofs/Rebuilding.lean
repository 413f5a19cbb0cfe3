import LdapCodec.Proofs.Encoded
import LdapCodec.Proofs.Meaning

namespace LdapCodec

open Json
open Envelope (oid? header value?)

/-- What an element read from a structured value was read of. -/
theorem Extension.ofJson_eq_ok {E H α : Type} [Envelope E H] {x : Extension E H α} {e : E}
    {v : Value} {strict : Bool} {t : Typed H α} (h : x.ofJson e v strict = .ok t) :
    ∃ form ms, x.structured = some form ∧ form.read strict ms = .ok t.payload ∧
      oid? e = some x.oid ∧ t = .new (header e) t.payload := by
  unfold ofJson at h
  split at h
  · cases h
  · rename_i form hf
    obtain ⟨_, ho, h⟩ := bind_eq_ok.1 h
    obtain ⟨ms, _, h⟩ := bind_eq_ok.1 h
    obtain ⟨payload, hp, h⟩ := bind_eq_ok.1 h
    cases h
    exact ⟨form, ms, hf, hp, checkOid_eq_ok_iff.1 ho, rfl⟩

namespace Registry

variable {E H T α : Type} [Envelope E H] {bare : T → T} {writable : T → Prop}

/-- An entry that reads structured values and rebuilds envelopes of them with the same
failures. The envelope it builds for something writable is decoded to the same. -/
def Entry.Rebuilds (bare : T → T) (writable : T → Prop) (entry : Entry E T) : Prop :=
  ∀ form e v strict, entry.form = some form →
    (∃ err, form.decode e v strict = .error err ∧ form.rebuild e v strict = .error err) ∨
    ∃ t e', form.decode e v strict = .ok t ∧ form.rebuild e v strict = .ok e' ∧
      oid? e' = oid? e ∧ (writable t → (entry.decode e').map bare = .ok (bare t))

theorem Entry.Rebuilds.ofExtension {x : Extension E H α} {wrap : Typed H α → T}
    (hw : ∀ t, bare (wrap t) = wrap t.bare)
    (hx : ∀ form strict ms a hd, x.structured = some form → form.read strict ms = .ok a →
      writable (wrap (.new hd a)) → x.Carries hd a) :
    (Entry.ofExtension x wrap).Rebuilds bare writable := by
  rintro _ e v strict ⟨⟩
  cases hj : x.ofJson e v strict with
  | error err => exact .inl ⟨err, by simp [hj, Except.map], by simp [hj, Except.map]⟩
  | ok t =>
    obtain ⟨form, ms, hf, hr, ho, ht⟩ := Extension.ofJson_eq_ok hj
    have ho' : oid? (x.toEnvelope t) = oid? e := (Extension.oid?_toEnvelope t).trans ho.symm
    refine .inr ⟨wrap t, x.toEnvelope t, by simp [hj, Except.map], by simp [hj, Except.map], ho',
      fun hwr ↦ ?_⟩
    rw [ht] at hwr ⊢
    simp only [Entry.ofExtension, Extension.decode_toEnvelope (hx form strict ms _ _ hf hr hwr),
      Except.map, hw]
    rfl

/-- An entry is found by the identifier alone, so that the envelope which is built goes to
the entry that built it. -/
theorem ofJson_eq_rebuild {r : Registry E T}
    (hr : ∀ entry ∈ r.entries, entry.Rebuilds bare writable) {e : E} {v : Value} {strict : Bool}
    (hd : ∀ t, r.ofJson e v strict = .ok t → writable t) :
    (r.ofJson e v strict).map bare = (r.rebuild e v strict >>= r.decode).map bare := by
  unfold ofJson rebuild at *
  cases hf : r.form? e with
  | error err => rfl
  | ok form =>
    rw [hf, ok_bind] at hd
    obtain ⟨entry, he, hef⟩ := form?_eq_ok hf
    rw [ok_bind, ok_bind]
    obtain ⟨err, h₁, h₂⟩ | ⟨t, e', h₁, h₂, ho, ht⟩ :=
      hr entry (entry?_eq_some he).1 form e v strict hef
    · rw [h₁, h₂]
      rfl
    · have he' : r.entry? e' = some entry := (entry?_congr ho).trans he
      rw [h₁, h₂, ok_bind, decode_eq_of_entry he', ht (hd t h₁)]
      rfl

variable [Documented E]

/-- Whatever is read of the structured value in a document satisfies `p`. -/
def OfStructured (r : Registry E T) (p : T → Prop) (strict : Bool) (document : Value) : Prop :=
  ∀ parsed v t, Document.parse (E := E) strict document = .ok parsed →
    parsed.structured = some v → r.ofJson parsed.envelope v strict = .ok t → p t

theorem ofDocument_eq_rebuilt {r : Registry E T}
    (hr : ∀ entry ∈ r.entries, entry.Rebuilds bare writable) {strict : Bool} {document : Value}
    (hd : r.OfStructured writable strict document) :
    (r.ofDocument strict document).map bare =
      (r.envelopeOfDocument strict document >>= r.decode).map bare := by
  unfold ofDocument envelopeOfDocument ofParsed
  cases hp : Document.parse (E := E) strict document with
  | error err => rfl
  | ok parsed =>
    rw [ok_bind, ok_bind]
    cases hs : parsed.structured with
    | none => rfl
    | some v => exact ofJson_eq_rebuild hr fun t ↦ hd parsed v t hp hs

end Registry

namespace KnownControl

def Writable (t : KnownControl) : Prop := Payload.Fits t.toEnvelope.value ∧ t.Exact

theorem rebuilds : ∀ entry ∈ registry.entries, entry.Rebuilds bare Writable := by
  simp only [registry, List.forall_mem_cons]
  refine ⟨.ofExtension (fun _ ↦ rfl) ?_, .ofExtension (fun _ ↦ rfl) ?_,
    .ofExtension (fun _ ↦ rfl) ?_, .ofExtension (fun _ ↦ rfl) ?_,
    .ofExtension (fun _ ↦ rfl) ?_, .ofExtension (fun _ ↦ rfl) ?_, by simp⟩
  · rintro _ strict ms x hd ⟨⟩ hr ⟨hf, _⟩
    exact ExcludeBranch.carries (ExcludeBranch.valid_of_read hr) hd hf.length_content_lt
  · rintro _ strict ms x hd ⟨⟩
  · rintro _ strict ms x hd ⟨⟩ hr ⟨hf, _⟩
    exact PasswordPolicy.carries (PasswordPolicy.valid_of_read hr) hd hf.length_content_lt
  · rintro _ strict ms x hd ⟨⟩ hr ⟨hf, _⟩
    exact TransactionSpecification.carries hd x
  · rintro _ strict ms x hd ⟨⟩ hr ⟨_, hx⟩
    exact JsonFormatted.carries hx _ _ hd
  · rintro _ strict ms x hd ⟨⟩ hr ⟨_, hx⟩
    exact JsonFormatted.carries hx _ _ hd

end KnownControl

namespace KnownRequest

def Writable (t : KnownRequest) : Prop := Payload.Fits t.toEnvelope.value

theorem rebuilds : ∀ entry ∈ registry.entries, entry.Rebuilds bare Writable := by
  simp only [registry, List.forall_mem_cons]
  refine ⟨.ofExtension (fun _ ↦ rfl) ?_, .ofExtension (fun _ ↦ rfl) ?_,
    .ofExtension (fun _ ↦ rfl) ?_, .ofExtension (fun _ ↦ rfl) ?_, by simp⟩
  · rintro _ strict ms x hd ⟨⟩ hr hf
    exact GeneratePassword.carries (GeneratePassword.valid_of_read hr) hd
      (GeneratePassword.length_content_lt hf)
  · rintro _ strict ms x hd ⟨⟩ _ hf
    exact BackupQuery.carries hd x hf.length_content_lt
  · rintro _ strict ms x hd ⟨⟩
  · rintro _ strict ms x hd ⟨⟩ _ hf
    exact EndTransaction.carries hd x hf.length_content_lt

end KnownRequest

namespace KnownResult

def Writable (t : KnownResult) : Prop := Payload.Fits t.toEnvelope.value

theorem rebuilds : ∀ entry ∈ registry.entries, entry.Rebuilds bare Writable := by
  simp only [registry, List.forall_mem_cons]
  refine ⟨.ofExtension (fun _ ↦ rfl) ?_, .ofExtension (fun _ ↦ rfl) ?_, by simp⟩
  · rintro _ strict ms a hd ⟨⟩ hr hf
    obtain ⟨x, rfl, hx⟩ := GeneratedPasswords.valid_of_read hr
    exact GeneratedPasswords.carries_some hx hd hf.length_content_lt
  · rintro _ strict ms a hd ⟨⟩ hr hf
    obtain ⟨x, rfl⟩ := BackupDescriptor.exists_of_read hr
    exact BackupDescriptor.carries_some x hd hf.length_content_lt

end KnownResult

namespace KnownIntermediate

def Writable (t : KnownIntermediate) : Prop := Payload.Fits t.toEnvelope.value

theorem rebuilds : ∀ entry ∈ registry.entries, entry.Rebuilds bare Writable := by
  simp only [registry, List.forall_mem_cons]
  refine ⟨.ofExtension (fun _ ↦ rfl) ?_, by simp⟩
  rintro _ strict ms x hd ⟨⟩ _ hf
  exact MissingChangelog.carries hd x hf.length_content_lt

end KnownIntermediate

/-- Whatever document there is, reading it is the same as making an envelope of it first and
decoding that: the octets written for a structured value are read as what the value says,
and where there are none the error is the same. -/
theorem rebuilt_document_agrees :
    (∀ (document : Value) (strict : Bool),
      KnownControl.registry.OfStructured KnownControl.Writable strict document →
      (KnownControl.registry.ofDocument strict document).map KnownControl.bare =
        (KnownControl.registry.envelopeOfDocument strict document >>=
          KnownControl.registry.decode).map KnownControl.bare) ∧
    (∀ (document : Value) (strict : Bool),
      KnownRequest.registry.OfStructured KnownRequest.Writable strict document →
      (KnownRequest.registry.ofDocument strict document).map KnownRequest.bare =
        (KnownRequest.registry.envelopeOfDocument strict document >>=
          KnownRequest.registry.decode).map KnownRequest.bare) ∧
    (∀ (document : Value) (strict : Bool),
      KnownResult.registry.OfStructured KnownResult.Writable strict document →
      (KnownResult.registry.ofDocument strict document).map KnownResult.bare =
        (KnownResult.registry.envelopeOfDocument strict document >>=
          KnownResult.registry.decode).map KnownResult.bare) ∧
    (∀ (document : Value) (strict : Bool),
      KnownIntermediate.registry.OfStructured KnownIntermediate.Writable strict document →
      (KnownIntermediate.registry.ofDocument strict document).map KnownIntermediate.bare =
        (KnownIntermediate.registry.envelopeOfDocument strict document >>=
          KnownIntermediate.registry.decode).map KnownIntermediate.bare) :=
  ⟨fun _ _ ↦ Registry.ofDocument_eq_rebuilt KnownControl.rebuilds,
    fun _ _ ↦ Registry.ofDocument_eq_rebuilt KnownRequest.rebuilds,
    fun _ _ ↦ Registry.ofDocument_eq_rebuilt KnownResult.rebuilds,
    fun _ _ ↦ Registry.ofDocument_eq_rebuilt KnownIntermediate.rebuilds⟩

/-- A control with a document of its own inside, and a request for the default number of
passwords, whose octets leave the number out. -/
theorem rebuilt_document_agrees_nested :
    let inner : Value := .object [("criticality", .bool false), ("oid", .string "1.2.3")]
    let control : Value := .object
      [("criticality", .bool true), ("oid", .string "1.3.6.1.4.1.30221.2.5.64"),
        ("value-json", .object [("controls", .array [inner])])]
    let request : Value := .object
      [("oid", .string "1.3.6.1.4.1.30221.2.6.62"),
        ("value-json", .object
          [("number-of-passwords", .ofInt 1), ("password-policy-dn", .string "")])]
    (KnownControl.registry.OfStructured KnownControl.Writable true control ∧
      (KnownControl.registry.envelopeOfDocument true control >>=
        KnownControl.registry.decode).map KnownControl.bare =
        .ok (.jsonRequest (JsonFormatted.build true [inner]))) ∧
    (KnownRequest.registry.OfStructured KnownRequest.Writable true request ∧
      (KnownRequest.registry.envelopeOfDocument true request >>=
        KnownRequest.registry.decode).map KnownRequest.bare =
        .ok (.generatePassword (.new () ⟨.policy "", 1, 5⟩))) := by
  intro inner control request
  have hc : KnownControl.registry.OfStructured KnownControl.Writable true control := by
    rintro _ _ _ ⟨⟩ ⟨⟩ ⟨⟩
    refine ⟨?_, ?_⟩
    · rintro _ ⟨⟩
      decide
    · intro v hv
      rw [List.mem_singleton.1 hv]
      refine ⟨.object (by decide) ?_, by decide⟩
      simp only [List.forall_mem_cons]
      exact ⟨.bool false, .string "1.2.3", by simp⟩
  have hr : KnownRequest.registry.OfStructured KnownRequest.Writable true request := by
    rintro _ _ _ ⟨⟩ ⟨⟩ ⟨⟩ _ ⟨⟩
    decide
  exact ⟨⟨hc, (rebuilt_document_agrees.1 control true hc).symm.trans rfl⟩,
    ⟨hr, (rebuilt_document_agrees.2.1 request true hr).symm.trans rfl⟩⟩

end LdapCodec
