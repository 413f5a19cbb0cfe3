import LdapCodec.Proofs.Decoded
import LdapCodec.Proofs.Meaning

namespace LdapCodec

open Json
open Documented.Lawful (Plain)
open Envelope (oid? header value? withValue)

namespace Registry

variable {E H T α : Type} [Envelope E H] {bare : T → T} {sound : E → Prop}

/-- A structured value of `e` is rebuilt to `e'`, of the same header and the same meaning. It
is also written for `e'`, and rebuilt to it again. -/
structure Entry.Settled (bare : T → T) (entry : Entry E T) (form : Form E T) (v : Value)
    (e e' : E) : Prop where
  oid_eq : oid? e' = oid? e
  header_eq : header e' = header e
  write_eq : form.write? e' = some v
  rebuild_eq : ∀ strict, form.rebuild (withValue e none) v strict = .ok e'
  rebuild_again : ∀ strict, form.rebuild (withValue e' none) v strict = .ok e'
  meaning : ∃ t t', entry.decode e = .ok t ∧ entry.decode e' = .ok t' ∧ bare t' = bare t

def Entry.Settles (bare : T → T) (sound : E → Prop) (entry : Entry E T) : Prop :=
  ∀ e form v, sound e → oid? e = some entry.oid → entry.form = some form →
    form.write? e = some v → (∃ ms, v = .object ms) ∧ ∃ e', entry.Settled bare form v e e'

theorem Entry.Settles.ofExtension {x : Extension E H α} {wrap : Typed H α → T}
    (hr : x.Restores) (hw : ∀ t, bare (wrap t) = wrap t.bare)
    (hx : ∀ e a, sound e → oid? e = some x.oid → x.decodeValue (header e) (value? e) = .ok a →
      x.Carries (header e) a) :
    (Entry.ofExtension x wrap).Settles bare sound := by
  rintro e _ v hs ho ⟨⟩ hv
  dsimp only at hv
  split at hv
  · rename_i t ht
    obtain ⟨form, hf, hv⟩ := Option.bind_eq_some_iff.1 hv
    obtain ⟨_, hp, hh, _⟩ := Extension.decode_eq_ok ht
    obtain ⟨hobject, hj⟩ := hr.ofJson_written (E := E) hp hf hv
    have hc := hx e t.payload hs ho hp
    have hd := Extension.decode_toEnvelope hc
    let e' : E := x.toEnvelope (.new (header e) t.payload)
    have ho' : oid? e' = some x.oid := Extension.oid?_toEnvelope _
    have hh' : header e' = header e := Extension.header_toEnvelope _
    refine ⟨hobject, e', ho'.trans ho.symm, hh', ?_, fun strict ↦ ?_, fun strict ↦ ?_, ?_⟩
    · have hd' : x.decode e' = _ := hd
      simp only [hd', Extension.toJson?, hf, Option.bind_some]
      exact hv
    · simp only [hj e strict ho, Except.map]
      rfl
    · simp only [hj e' strict ho', hh', Except.map]
      rfl
    · refine ⟨wrap t, wrap ⟨header e, t.payload, x.keep (.of (x.encodeValue t.payload))⟩,
        ?_, ?_, ?_⟩
      · exact map_eq_ok.2 ⟨t, ht, rfl⟩
      · exact map_eq_ok.2 ⟨_, hd, rfl⟩
      · simp only [hw, Typed.bare, hh]
  · cases hv

variable {r : Registry E T} {e : E}

theorem rebuild_of_form {entry : Entry E T} {form : Form E T} (he : r.entry? e = some entry)
    (hf : entry.form = some form) (v : Value) (strict : Bool) :
    r.rebuild (withValue e none) v strict = form.rebuild (withValue e none) v strict := by
  rw [rebuild, form?_withValue, form?_of_entry he hf, ok_bind]

variable [Documented E]

def reread (r : Registry E T) (e : E) : Except DecodeError E :=
  r.envelopeOfDocument false (r.toDocument e)

/-- What is read for an envelope: the same header with a value that means the same, which is
read as it is from then on. A value that means nothing to the registry stays as it was. -/
structure Canonical (r : Registry E T) (bare : T → T) (e e' : E) : Prop where
  oid_eq : oid? e' = oid? e
  header_eq : header e' = header e
  kept : value? e = none ∨ (∀ oid, oid? e = some oid → r.isRegistered oid = false) ∨
    (∃ err, r.decode e = .error err) → e' = e
  meaning : ∀ t, r.decode e = .ok t → ∃ t', r.decode e' = .ok t' ∧ bare t' = bare t
  reread_eq : r.reread e' = .ok e'

theorem Canonical.refl (h : r.reread e = .ok e) : r.Canonical bare e e :=
  ⟨rfl, rfl, fun _ ↦ rfl, fun t ht ↦ ⟨t, ht, rfl⟩, h⟩

theorem Entry.Settled.canonical {entry : Entry E T} {form : Form E T} {v : Value} {e' : E}
    (h : entry.Settled bare form v e e') (he : r.entry? e = some entry) (hv : (value? e).isSome)
    (hread : r.reread e' = .ok e') : r.Canonical bare e e' := by
  obtain ⟨t, t', ht, ht', hbare⟩ := h.meaning
  have hdecode : r.decode e = .ok t := (decode_eq_of_entry he).trans ht
  have hdecode' : r.decode e' = .ok t' :=
    (decode_eq_of_entry ((entry?_congr h.oid_eq).trans he)).trans ht'
  refine ⟨h.oid_eq, h.header_eq, ?_, ?_, hread⟩
  · rintro (hn | hn | ⟨err, hn⟩)
    · rw [hn] at hv
      cases hv
    · have ho := (entry?_eq_some he).2
      have hfound : r.find? entry.oid = some entry := by
        unfold entry? at he
        rwa [ho] at he
      have hreg := hn entry.oid ho
      rw [isRegistered, hfound] at hreg
      cases hreg
    · rw [hdecode] at hn
      cases hn
  · intro u hu
    rw [hdecode] at hu
    cases hu
    exact ⟨t', hdecode', hbare⟩

variable [Documented.Keyed E]

/-- The value of an envelope stands in its document once, in one form or the other. -/
def WritesValueOnce (r : Registry E T) (e : E) : Prop :=
  (value? e = none → (r.toDocument e).member? Document.octetsKey = none ∧
    (r.toDocument e).member? Document.structuredKey = none) ∧
  (value? e ≠ none → ((r.toDocument e).member? Document.octetsKey).isSome ≠
    ((r.toDocument e).member? Document.structuredKey).isSome)

theorem writesValueOnce (r : Registry E T) (e : E) : r.WritesValueOnce e := by
  have hheader {k : String} (hk : k = Document.octetsKey ∨ k = Document.structuredKey)
      (name : Option String) : (Document.headerMembers e name).get? k = none :=
    Document.get?_headerMembers_value hk
  constructor
  · intro hv
    simp only [toDocument, Document.ofEnvelope, hv]
    exact ⟨hheader (.inl rfl) _, hheader (.inr rfl) _⟩
  · intro hv
    obtain ⟨bytes, hv⟩ := Option.ne_none_iff_exists'.1 hv
    let name := (oid? e).map fun oid ↦ (r.name? oid).getD oid
    have hone : ∀ (k k' : String) (v : Value), k ≠ k' →
        (k' = Document.octetsKey ∨ k' = Document.structuredKey) →
        (((Document.headerMembers e name).insert k v).get? k).isSome ≠
          (((Document.headerMembers e name).insert k v).get? k').isSome := by
      intro k k' v hk hk'
      rw [Members.get?_insert_self, Members.get?_insert_of_ne hk.symm, hheader hk' name]
      simp
    cases hj : r.toJson? e with
    | none =>
      simp only [toDocument, Document.ofEnvelope, hv, Option.isSome_some,
        if_true, hj]
      exact hone Document.octetsKey Document.structuredKey _ (by decide) (.inr rfl)
    | some v =>
      simp only [toDocument, Document.ofEnvelope, hv, Option.isSome_some,
        if_true, hj]
      exact (hone Document.structuredKey Document.octetsKey v (by decide) (.inl rfl)).symm

variable [Documented.Lawful E]

theorem reread_of_octets (hp : Plain e) (ha : Document.Admits false (oid? e))
    (h : value? e = none ∨ r.toJson? e = none) : r.reread e = .ok e := by
  have hs : (if (value? e).isSome then r.toJson? e else none) = none := by
    rcases h with h | h
    · rw [h]
      rfl
    · rw [h]
      split <;> rfl
  simp only [reread, toDocument, hs, envelopeOfDocument, Document.parse_ofEnvelope hp ha, ok_bind]

theorem reread_of_structured (hp : Plain e) (ha : Document.Admits false (oid? e))
    (hv : (value? e).isSome) {ms : Members} (hs : r.toJson? e = some (.object ms)) :
    r.reread e = r.rebuild (withValue e none) (.object ms) false := by
  simp only [reread, toDocument, hv, if_true, hs, envelopeOfDocument,
    Document.parse_ofEnvelope_structured hp ha hv ms, ok_bind]

theorem Entry.Settled.reread_eq {entry : Entry E T} {form : Form E T} {ms : Members} {e' : E}
    (h : entry.Settled bare form (.object ms) e e') (he : r.entry? e' = some entry)
    (hf : entry.form = some form) (hp : Plain e') (ha : Document.Admits false (oid? e')) :
    r.reread e' = .ok e' := by
  have hj : r.toJson? e' = some (.object ms) := by
    rw [toJson?, he, Option.bind_some, hf, Option.bind_some, h.write_eq]
  cases hv : value? e' with
  | none => exact reread_of_octets hp ha (.inl hv)
  | some bytes =>
    have hsome : (value? e').isSome := by rw [hv]; rfl
    rw [reread_of_structured hp ha hsome hj, rebuild_of_form he hf, h.rebuild_again]

/-- Reading the document of an envelope gives an envelope of its own meaning, and does so only
once: after that nothing changes any more. -/
theorem exists_canonical (hr : ∀ entry ∈ r.entries, entry.Settles bare sound)
    (hplain : ∀ e e' : E, header e' = header e → Plain e → Plain e') (hs : sound e) (hp : Plain e)
    (ha : Document.Admits false (oid? e)) :
    ∃ e', r.reread e = .ok e' ∧ r.Canonical bare e e' := by
  cases hv : value? e with
  | none =>
    have hread := reread_of_octets (r := r) hp ha (.inl hv)
    exact ⟨e, hread, .refl hread⟩
  | some bytes =>
    cases hj : r.toJson? e with
    | none =>
      have hread := reread_of_octets hp ha (.inr hj)
      exact ⟨e, hread, .refl hread⟩
    | some v =>
      have hsome : (value? e).isSome := by rw [hv]; rfl
      obtain ⟨entry, form, he, hf, hw⟩ := toJson?_eq_some hj
      obtain ⟨hm, ho⟩ := entry?_eq_some he
      obtain ⟨⟨ms, rfl⟩, e', h⟩ := hr entry hm e form v hs ho hf hw
      refine ⟨e', ?_, h.canonical he hsome ?_⟩
      · rw [reread_of_structured hp ha hsome hj, rebuild_of_form he hf, h.rebuild_eq]
      · exact h.reread_eq ((entry?_congr h.oid_eq).trans he) hf (hplain e e' h.header_eq hp)
          (h.oid_eq ▸ ha)

end Registry

theorem Document.admits_of_ne {oid : Option String} (h : oid ≠ some "") :
    Document.Admits false oid := by
  rintro o rfl
  exact ⟨fun ho ↦ h (congrArg some ho), fun hs ↦ nomatch hs⟩

namespace KnownControl

def WithoutDoubles (c : Control) : Prop :=
  c.oid = JsonFormatted.request.oid ∨ c.oid = JsonFormatted.response.oid →
    JsonFormatted.WithoutDoubles c.value

theorem settles : ∀ entry ∈ registry.entries, entry.Settles bare WithoutDoubles := by
  simp only [registry, List.forall_mem_cons]
  refine ⟨.ofExtension ExcludeBranch.extension_restores (fun _ ↦ rfl) ?_,
    .ofExtension ManageDsaIt.extension_restores (fun _ ↦ rfl) ?_,
    .ofExtension PasswordPolicy.extension_restores (fun _ ↦ rfl) ?_,
    .ofExtension TransactionSpecification.extension_restores (fun _ ↦ rfl) ?_,
    .ofExtension (JsonFormatted.extension_restores _ _) (fun _ ↦ rfl) ?_,
    .ofExtension (JsonFormatted.extension_restores _ _) (fun _ ↦ rfl) ?_, by simp⟩
  · exact fun _ _ _ _ ↦ ExcludeBranch.settles _ _ _
  · exact fun _ _ _ _ ↦ ManageDsaIt.settles _ _ _
  · exact fun _ _ _ _ ↦ PasswordPolicy.settles _ _ _
  · exact fun _ _ _ _ ↦ TransactionSpecification.settles _ _ _
  · intro c x hc ho h
    exact JsonFormatted.settles h (hc (.inl (Option.some.inj ho)))
  · intro c x hc ho h
    exact JsonFormatted.settles h (hc (.inr (Option.some.inj ho)))

end KnownControl

theorem KnownRequest.settles :
    ∀ entry ∈ registry.entries, entry.Settles bare fun _ ↦ True := by
  simp only [registry, List.forall_mem_cons]
  exact ⟨.ofExtension GeneratePassword.extension_restores (fun _ ↦ rfl)
      fun _ _ _ _ ↦ GeneratePassword.settles _ _ _,
    .ofExtension BackupQuery.extension_restores (fun _ ↦ rfl)
      fun _ _ _ _ ↦ BackupQuery.settles _ _ _,
    .ofExtension StartTransaction.extension_restores (fun _ ↦ rfl)
      fun _ _ _ _ ↦ StartTransaction.settles _ _ _,
    .ofExtension EndTransaction.extension_restores (fun _ ↦ rfl)
      fun _ _ _ _ ↦ EndTransaction.settles _ _ _, by simp⟩

theorem KnownResult.settles :
    ∀ entry ∈ registry.entries, entry.Settles bare fun _ ↦ True := by
  simp only [registry, List.forall_mem_cons]
  exact ⟨.ofExtension GeneratedPasswords.extension_restores (fun _ ↦ rfl)
      fun _ _ _ _ ↦ GeneratedPasswords.settles _ _ _,
    .ofExtension BackupDescriptor.extension_restores (fun _ ↦ rfl)
      fun _ _ _ _ ↦ BackupDescriptor.settles _ _ _, by simp⟩

theorem KnownIntermediate.settles :
    ∀ entry ∈ registry.entries, entry.Settles bare fun _ ↦ True := by
  simp only [registry, List.forall_mem_cons]
  exact ⟨.ofExtension MissingChangelog.extension_restores (fun _ ↦ rfl)
      fun _ _ _ _ ↦ MissingChangelog.settles _ _ _, by simp⟩

/-- To write an envelope as a document and to read that makes its value canonical and leaves
everything else as it was. The value means the same as before, and is not changed by another
round. -/
theorem reread_canonical :
    (∀ c : Control, c.oid ≠ "" → KnownControl.WithoutDoubles c →
      (∃ c', KnownControl.registry.reread c = .ok c' ∧
        KnownControl.registry.Canonical KnownControl.bare c c') ∧
      KnownControl.registry.WritesValueOnce c) ∧
    (∀ q : ExtendedRequest, q.oid ≠ "" →
      (∃ q', KnownRequest.registry.reread q = .ok q' ∧
        KnownRequest.registry.Canonical KnownRequest.bare q q') ∧
      KnownRequest.registry.WritesValueOnce q) ∧
    (∀ r : ExtendedResult, r.oid ≠ some "" → r.result.matchedDn ≠ some "" →
      r.result.diagnostic ≠ some "" →
      (∃ r', KnownResult.registry.reread r = .ok r' ∧
        KnownResult.registry.Canonical KnownResult.bare r r') ∧
      KnownResult.registry.WritesValueOnce r) ∧
    (∀ r : IntermediateResponse, r.oid ≠ some "" →
      (∃ r', KnownIntermediate.registry.reread r = .ok r' ∧
        KnownIntermediate.registry.Canonical KnownIntermediate.bare r r') ∧
      KnownIntermediate.registry.WritesValueOnce r) := by
  refine ⟨fun c hc hd ↦ ⟨?_, Registry.writesValueOnce _ c⟩,
    fun q hq ↦ ⟨?_, Registry.writesValueOnce _ q⟩,
    fun r hr hm hd ↦ ⟨?_, Registry.writesValueOnce _ r⟩,
    fun r hr ↦ ⟨?_, Registry.writesValueOnce _ r⟩⟩
  · have ha : Document.Admits false (some c.oid) := Document.admits_of_ne (by simpa using hc)
    exact Registry.exists_canonical KnownControl.settles (fun _ _ _ _ ↦ trivial) hd trivial ha
  · have ha : Document.Admits false (some q.oid) := Document.admits_of_ne (by simpa using hq)
    exact Registry.exists_canonical KnownRequest.settles (fun _ _ _ _ ↦ trivial) trivial trivial ha
  · have hplain : ∀ r r' : ExtendedResult, header r' = header r → Plain r → Plain r' := by
      rintro ⟨result, _, _⟩ ⟨_, _, _⟩ ⟨⟩ hp
      exact hp
    exact Registry.exists_canonical KnownResult.settles hplain trivial ⟨hm, hd⟩
      (Document.admits_of_ne hr)
  · exact Registry.exists_canonical KnownIntermediate.settles (fun _ _ _ _ ↦ trivial) trivial
      trivial (Document.admits_of_ne hr)

/-- A text of documents with a blank in it, a request whose only field is the default, a
result with a value that is none of its own, and a response with a padded length. -/
theorem reread_canonical_padded :
    let control (text : String) : Control :=
      ⟨"1.3.6.1.4.1.30221.2.5.64", true, some (Utf8.encode text)⟩
    let request (value : Option Bytes) : ExtendedRequest := ⟨"1.3.6.1.4.1.30221.2.6.62", value⟩
    let result : ExtendedResult := ⟨.success, some "1.3.6.1.4.1.30221.2.6.31", some [1]⟩
    let response (value : Bytes) : IntermediateResponse :=
      ⟨some "1.3.6.1.4.1.30221.2.6.12", some value⟩
    KnownControl.registry.Canonical KnownControl.bare
        (control "\x7b\"controls\": [7]\x7d") (control "\x7b\"controls\":[7]\x7d") ∧
      KnownRequest.registry.Canonical KnownRequest.bare (request (some [0x30, 3, 0x83, 1, 1]))
        (request none) ∧
      KnownResult.registry.Canonical KnownResult.bare result result ∧
      KnownIntermediate.registry.Canonical KnownIntermediate.bare (response [0x30, 0x81, 0])
        (response [0x30, 0]) := by
  intro control request result response
  obtain ⟨hcontrol, hrequest, hresult, hresponse⟩ := reread_canonical
  have hdoubles : KnownControl.WithoutDoubles (control "\x7b\"controls\": [7]\x7d") := by
    intro _ bytes text v hb ht hv
    obtain rfl := Option.some.inj hb
    rw [Utf8.decode_encode] at ht
    obtain rfl := Except.ok.inj ht
    have hread : ∀ v ∈ Value.read? "\x7b\"controls\": [7]\x7d", ¬v.HasDouble := by
      decide +kernel
    exact hread v hv
  have hc := hcontrol (control "\x7b\"controls\": [7]\x7d") (by decide) hdoubles
  have hq := hrequest (request (some [0x30, 3, 0x83, 1, 1])) (by decide)
  have hr := hresult result (by decide) (by decide) (by decide)
  have hi := hresponse (response [0x30, 0x81, 0]) (by decide)
  refine ⟨?_, ?_, ?_, ?_⟩
  · obtain ⟨⟨c', hread, hc'⟩, _⟩ := hc
    cases hread.symm.trans (show _ = .ok (control "\x7b\"controls\":[7]\x7d") by decide +kernel)
    exact hc'
  · obtain ⟨⟨q', hread, hq'⟩, _⟩ := hq
    cases hread.symm.trans (show _ = .ok (request none) by decide +kernel)
    exact hq'
  · obtain ⟨⟨r', hread, hr'⟩, _⟩ := hr
    cases hread.symm.trans (show _ = .ok result by decide +kernel)
    exact hr'
  · obtain ⟨⟨r', hread, hr'⟩, _⟩ := hi
    cases hread.symm.trans (show _ = .ok (response [0x30, 0]) by decide +kernel)
    exact hr'

end LdapCodec
