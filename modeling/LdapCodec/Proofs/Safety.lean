import LdapCodec.Proofs.FieldOrder
import LdapCodec.Proofs.Rebuilding
import LdapCodec.Proofs.Trapping.Registry

namespace LdapCodec

open Ber Json
open Trapping (Kind)

section

variable {E H α T : Type} [Envelope E H]

structure Extension.Establishes (x : Extension E H α) (P : H → α → Prop) : Prop where
  decodeValue : ∀ hd value a, x.decodeValue hd value = .ok a → P hd a
  read : ∀ hd form strict ms a, x.structured = some form → form.read strict ms = .ok a → P hd a

namespace Extension.Establishes

variable {x : Extension E H α} {P : H → α → Prop}

theorem decode (h : x.Establishes P) {e : E} {t : Typed H α} (ht : x.decode e = .ok t) :
    P t.header t.payload := by
  obtain ⟨_, hp, hh, _⟩ := Extension.decode_eq_ok ht
  rw [hh]
  exact h.decodeValue _ _ _ hp

theorem ofJson (h : x.Establishes P) {e : E} {v : Value} {strict : Bool} {t : Typed H α}
    (ht : x.ofJson e v strict = .ok t) : P t.header t.payload := by
  obtain ⟨form, ms, hf, hr, _⟩ := Extension.ofJson_eq_ok ht
  exact h.read t.header form strict ms t.payload hf hr

end Extension.Establishes

structure Meaning.Yields (Q : T → Prop) (m : Meaning E H T) : Prop where
  decode : ∀ e t, m.extension.decode e = .ok t → Q (m.wrap t)
  ofJson : ∀ e v strict t, m.extension.ofJson e v strict = .ok t → Q (m.wrap t)

theorem Extension.Establishes.yields {x : Extension E H α} {P : H → α → Prop} {Q : T → Prop}
    {wrap : Typed H α → T} (h : x.Establishes P)
    (hq : ∀ t : Typed H α, P t.header t.payload → Q (wrap t)) : Meaning.Yields Q ⟨x, wrap⟩ :=
  ⟨fun _ t ht ↦ hq t (h.decode ht), fun _ _ _ t ht ↦ hq t (h.ofJson ht)⟩

theorem Meaning.Yields.of_forall {Q : T → Prop} {m : Meaning E H T} (h : ∀ t, Q (m.wrap t)) :
    m.Yields Q :=
  ⟨fun _ t _ ↦ h t, fun _ _ _ t _ ↦ h t⟩

/-- Whatever comes of readers is an envelope with one property or a meaning with another. An
envelope that is to be given a meaning already has the property of envelopes. -/
structure Readers.Sound (rs : Readers E T) (P : E → Prop) (Q : T → Prop) : Prop where
  ofBytes : ∀ bytes e, rs.ofBytes bytes = .ok e → P e
  decode : ∀ e t, P e → rs.decode e = .ok t → Q t
  ofJson : ∀ e v strict t, rs.ofJson e v strict = .ok t → Q t
  rebuild : ∀ e v strict e', rs.rebuild e v strict = .ok e' → P e'
  envelopeOfDocument : ∀ strict document e, rs.envelopeOfDocument strict document = .ok e → P e
  ofDocument : ∀ strict document t, rs.ofDocument strict document = .ok t → Q t
  typed : ∀ read ∈ rs.typed, ∀ strict document t, read strict document = .ok t → Q t

namespace Registry

variable {generic : E → T} {ms : List (Meaning E H T)}
  {hd : (ms.map fun m ↦ m.extension.oid).Nodup} {Q : T → Prop}

theorem form?_ofMeanings {e : E} {form : Form E T}
    (h : (ofMeanings generic ms hd).form? e = .ok form) :
    ∃ m ∈ ms, m.entry.form = some form := by
  obtain ⟨entry, he, hf⟩ := form?_eq_ok h
  obtain ⟨m, hm, rfl⟩ := List.mem_map.1 (entry?_eq_some he).1
  exact ⟨m, hm, hf⟩

theorem ofJson_sound (hm : ∀ m ∈ ms, m.Yields Q) {e : E} {v : Value} {strict : Bool} {t : T}
    (h : (ofMeanings generic ms hd).ofJson e v strict = .ok t) : Q t := by
  obtain ⟨form, hform, h⟩ := bind_eq_ok.1 h
  obtain ⟨m, hmem, hf⟩ := form?_ofMeanings hform
  cases hf
  obtain ⟨u, hu, rfl⟩ := map_eq_ok.1 h
  exact (hm m hmem).ofJson e v strict u hu

variable [Kind E]

theorem decode_sound (hg : ∀ e : E, Kind.Accepts e → Q (generic e)) (hm : ∀ m ∈ ms, m.Yields Q)
    {e : E} {t : T} (he : Kind.Accepts e) (h : (ofMeanings generic ms hd).decode e = .ok t) :
    Q t := by
  unfold decode at h
  split at h
  · rename_i entry hentry
    obtain ⟨m, hmem, rfl⟩ := List.mem_map.1 (entry?_eq_some hentry).1
    obtain ⟨u, hu, rfl⟩ := map_eq_ok.1 h
    exact (hm m hmem).decode e u hu
  · cases h
    exact hg e he

theorem rebuild_sound (hn : ∀ m ∈ ms, m.extension.oid ≠ "") {e e' : E} {v : Value} {strict : Bool}
    (h : (ofMeanings generic ms hd).rebuild e v strict = .ok e') : Kind.Accepts e' := by
  obtain ⟨form, hform, h⟩ := bind_eq_ok.1 h
  obtain ⟨m, hmem, hf⟩ := form?_ofMeanings hform
  cases hf
  obtain ⟨u, _, rfl⟩ := map_eq_ok.1 h
  exact Trapping.accepts_toEnvelope (hn m hmem) u

variable [Documented E] [Documented.Named E]

theorem readers_sound (hd : (ms.map fun m ↦ m.extension.oid).Nodup)
    (hg : ∀ e : E, Kind.Accepts e → Q (generic e)) (hm : ∀ m ∈ ms, m.Yields Q)
    (hn : ∀ m ∈ ms, m.extension.oid ≠ "") :
    ((ofMeanings generic ms hd).readers ms).Sound Kind.Accepts Q where
  ofBytes bytes e h := by
    obtain ⟨x, _, h⟩ := bind_eq_ok.1 h
    exact Kind.accepts_of_ofElement x e h
  decode _ _ := decode_sound hg hm
  ofJson _ _ _ _ := ofJson_sound hm
  rebuild _ _ _ _ := rebuild_sound hn
  envelopeOfDocument strict document e h := by
    obtain ⟨parsed, hp, h⟩ := bind_eq_ok.1 h
    split at h
    · exact rebuild_sound hn h
    · cases h
      exact Trapping.accepts_of_parse hp
  ofDocument strict document t h := by
    obtain ⟨parsed, hp, h⟩ := bind_eq_ok.1 h
    unfold ofParsed at h
    split at h
    · exact ofJson_sound hm h
    · exact decode_sound hg hm (Trapping.accepts_of_parse hp) h
  typed read hr strict document t h := by
    obtain ⟨m, hmem, rfl⟩ := List.mem_map.1 hr
    obtain ⟨u, hu, rfl⟩ := map_eq_ok.1 h
    obtain ⟨parsed, _, hu⟩ := bind_eq_ok.1 hu
    split at hu
    · exact (hm m hmem).ofJson _ _ _ _ hu
    · exact (hm m hmem).decode _ _ hu

end Registry

end

theorem ExcludeBranch.establishes : extension.Establishes fun _ x ↦ x.Valid where
  decodeValue _ _ _ h := by
    obtain ⟨_, _, h⟩ := bind_eq_ok.1 h
    exact valid_of_decode h
  read := by
    rintro _ _ strict ms x ⟨⟩ h
    exact valid_of_read h

theorem PasswordPolicy.establishes : extension.Establishes fun _ x ↦ x.Valid where
  decodeValue _ _ _ h := by
    obtain ⟨_, _, h⟩ := bind_eq_ok.1 h
    exact valid_of_decode h
  read := by
    rintro _ _ strict ms x ⟨⟩ h
    exact valid_of_read h

theorem GeneratePassword.establishes : extension.Establishes fun _ x ↦ x.Valid where
  decodeValue _ _ _ h := valid_of_decodeValue h
  read := by
    rintro _ _ strict ms x ⟨⟩ h
    exact valid_of_read h

namespace GeneratedPasswords

def Fits (result : OperationResult) (x : Option GeneratedPasswords) : Prop :=
  (x = none → result.code.isSuccess = false) ∧ ∀ a, x = some a → a.Valid

theorem establishes : extension.Establishes Fits where
  decodeValue result value x h := by
    refine ⟨?_, valid_of_decodeValue h⟩
    rintro rfl
    have hv : decodeValue result value = .ok none := h
    exact isSuccess_of_resultValue hv
  read := by
    rintro _ _ strict ms x ⟨⟩ h
    obtain ⟨a, rfl, ha⟩ := valid_of_read h
    refine ⟨(nomatch ·), ?_⟩
    rintro _ ⟨⟩
    exact ha

end GeneratedPasswords

namespace BackupDescriptor

theorem establishes :
    extension.Establishes fun result x ↦ x = none → result.code.isSuccess = false where
  decodeValue result value x h := by
    rintro rfl
    have hv : decodeValue result value = .ok none := h
    exact isSuccess_of_resultValue hv
  read := by
    rintro _ _ strict ms x ⟨⟩ h
    obtain ⟨a, rfl⟩ := exists_of_read h
    exact (nomatch ·)

end BackupDescriptor

namespace KnownControl

def readers : Readers Control KnownControl := registry.readers meanings

def Valid (t : KnownControl) : Prop :=
  t.toEnvelope.oid ≠ "" ∧
    match t with
    | excludeBranch x => x.payload.baseDns ≠ []
    | passwordPolicy x => ∀ w, x.payload.warning = some w → 0 ≤ w.amount
    | _ => True

theorem named : ∀ m ∈ meanings, m.extension.oid ≠ "" := by
  simp only [meanings, List.forall_mem_cons]
  exact ⟨by decide, by decide, by decide, by decide, by decide, by decide, by simp⟩

theorem yields_valid : ∀ m ∈ meanings, m.Yields Valid := by
  have hn := named
  simp only [meanings, List.forall_mem_cons] at hn ⊢
  obtain ⟨h₁, h₂, h₃, h₄, h₅, h₆, _⟩ := hn
  exact ⟨ExcludeBranch.establishes.yields fun _ h ↦ ⟨h₁, h⟩, .of_forall fun _ ↦ ⟨h₂, trivial⟩,
    PasswordPolicy.establishes.yields fun _ h ↦ ⟨h₃, h⟩, .of_forall fun _ ↦ ⟨h₄, trivial⟩,
    .of_forall fun _ ↦ ⟨h₅, trivial⟩, .of_forall fun _ ↦ ⟨h₆, trivial⟩, by simp⟩

theorem readers_sound : readers.Sound (fun c ↦ c.oid ≠ "") Valid :=
  Registry.readers_sound (by decide) (fun _ h ↦ ⟨h, trivial⟩) yields_valid named

end KnownControl

namespace KnownRequest

def readers : Readers ExtendedRequest KnownRequest := registry.readers meanings

def Valid (t : KnownRequest) : Prop :=
  t.toEnvelope.oid ≠ "" ∧
    match t with
    | generatePassword x => 1 ≤ x.payload.passwords ∧ 0 ≤ x.payload.attempts
    | _ => True

theorem named : ∀ m ∈ meanings, m.extension.oid ≠ "" := by
  simp only [meanings, List.forall_mem_cons]
  exact ⟨by decide, by decide, by decide, by decide, by simp⟩

theorem yields_valid : ∀ m ∈ meanings, m.Yields Valid := by
  have hn := named
  simp only [meanings, List.forall_mem_cons] at hn ⊢
  obtain ⟨h₁, h₂, h₃, h₄, _⟩ := hn
  exact ⟨GeneratePassword.establishes.yields fun _ h ↦ ⟨h₁, h⟩,
    .of_forall fun _ ↦ ⟨h₂, trivial⟩, .of_forall fun _ ↦ ⟨h₃, trivial⟩,
    .of_forall fun _ ↦ ⟨h₄, trivial⟩, by simp⟩

theorem readers_sound : readers.Sound (fun r ↦ r.oid ≠ "") Valid :=
  Registry.readers_sound (by decide) (fun _ h ↦ ⟨h, trivial⟩) yields_valid named

end KnownRequest

namespace KnownResult

def readers : Readers ExtendedResult KnownResult := registry.readers meanings

/-- What constructors insist on: a policy goes with passwords, properties go with a
descriptor, and a success has both of the former, or the latter. -/
def Valid : KnownResult → Prop
  | generatedPasswords x =>
    let policyDn := x.payload.map (·.policyDn)
    let passwords := x.payload.elim [] (·.passwords)
    (policyDn ≠ none ↔ passwords ≠ []) ∧
      (x.header.code.isSuccess = true → policyDn ≠ none ∧ passwords ≠ [])
  | backupDescriptor x =>
    let descriptor := x.payload.map (·.descriptor)
    let properties := x.payload.elim [] (·.properties)
    (x.header.code.isSuccess = true → descriptor ≠ none) ∧ (descriptor = none → properties = [])
  | generic _ => True

theorem named : ∀ m ∈ meanings, m.extension.oid ≠ "" := by
  simp only [meanings, List.forall_mem_cons]
  exact ⟨by decide, by decide, by simp⟩

theorem valid_generatedPasswords (x : Typed OperationResult (Option GeneratedPasswords))
    (h : GeneratedPasswords.Fits x.header x.payload) : (generatedPasswords x).Valid := by
  obtain ⟨header, payload, received⟩ := x
  cases payload with
  | none => simp [Valid, h.1 rfl]
  | some a =>
    have ha : a.passwords ≠ [] := h.2 a rfl
    simp [Valid, ha]

theorem valid_backupDescriptor (x : Typed OperationResult (Option BackupDescriptor))
    (h : x.payload = none → x.header.code.isSuccess = false) : (backupDescriptor x).Valid := by
  obtain ⟨header, payload, received⟩ := x
  cases payload with
  | none => simp [Valid, h rfl]
  | some a => simp [Valid]

theorem yields_valid : ∀ m ∈ meanings, m.Yields Valid := by
  simp only [meanings, List.forall_mem_cons]
  exact ⟨GeneratedPasswords.establishes.yields valid_generatedPasswords,
    BackupDescriptor.establishes.yields valid_backupDescriptor, by simp⟩

theorem readers_sound : readers.Sound (fun _ ↦ True) Valid :=
  Registry.readers_sound (by decide) (fun _ _ ↦ trivial) yields_valid named

end KnownResult

namespace KnownIntermediate

def readers : Readers IntermediateResponse KnownIntermediate := registry.readers meanings

theorem named : ∀ m ∈ meanings, m.extension.oid ≠ "" := by
  simp only [meanings, List.forall_mem_cons]
  exact ⟨by decide, by simp⟩

end KnownIntermediate

namespace Embedded

variable {T : Type} {Q : T → Prop}

/-- What holds of every item that is decoded holds of all that come of a list. -/
theorem of_decodeItems {ι : Type} {decode : Nat → ι → Except Fault T}
    (hd : ∀ index item x, decode index item = .ok x → Q x) {index : Nat} {items : List ι}
    {notes notes' : List String} {xs : List T}
    (h : decodeItems decode index notes items = (.ok xs, notes')) : ∀ x ∈ xs, Q x := by
  induction items generalizing index notes xs with
  | nil =>
    cases h
    simp
  | cons item items ih =>
    rw [decodeItems] at h
    split at h
    · rename_i x hx
      obtain ⟨ys, hr, rfl⟩ := map_eq_ok.1 (Prod.ext_iff.1 h).1
      refine List.forall_mem_cons.2 ⟨hd index item x hx, ?_⟩
      exact ih (Prod.ext hr (Prod.ext_iff.1 h).2)
    · split at h
      · cases h
      · exact ih h

theorem of_ofElement {rs : Readers Control T} (hs : rs.Sound (fun c ↦ c.oid ≠ "") Q)
    {r : Registry Control T} (hr : rs.decode = r.decode) {policy : DecodePolicy} {index : Nat}
    {e : Element} {t : T} (h : ofElement r policy index e = .ok t) : Q t := by
  unfold ofElement at h
  split at h
  · cases h
  · rename_i c hc
    refine hs.decode c t (Control.fields_of_ofElement hc).1 ?_
    rw [hr]
    exact mapError_eq_ok.1 h

theorem of_ofValue {rs : Readers Control T} (hs : rs.Sound (fun c ↦ c.oid ≠ "") Q)
    {r : Registry Control T} (hr : rs.ofDocument = r.ofDocument) {policy : DecodePolicy}
    {index : Nat} {v : Value} {t : T} (h : ofValue r policy index v = .ok t) : Q t := by
  unfold ofValue at h
  split at h
  · cases h
  · rename_i parsed hp
    refine hs.ofDocument policy.strict v t ?_
    rw [hr]
    exact bind_eq_ok.2 ⟨parsed, hp, mapError_eq_ok.1 h⟩

end Embedded

theorem StartedTransaction.transactionId_of_ofResult {r : ExtendedResult} {x : StartedTransaction}
    (h : ofResult r = .ok x) (hs : x.result.code.isSuccess = true) : x.transactionId ≠ none := by
  unfold ofResult at h
  split at h
  · cases h
  · rename_i hn
    cases h
    exact fun hv ↦ hn ⟨hv, hs⟩

namespace EndedTransaction

def Valid (x : EndedTransaction) : Prop :=
  (∀ id, x.failedMessageId = some id → 0 ≤ id) ∧ ∀ u ∈ x.updates, 0 ≤ u.messageId

theorem valid_of_readField (x : EndedTransaction) (e : Element) (place : Nat)
    (y : EndedTransaction) (hx : x.Valid) (h : readField x e = .ok (place, y)) : y.Valid := by
  obtain ⟨-, w, ⟨-, hw⟩, rfl⟩ | ⟨-, us, ⟨children, -, hus⟩, rfl⟩ := readField_eq_ok_iff.1 h
  · refine ⟨?_, hx.2⟩
    rintro _ ⟨⟩
    exact hw
  · refine ⟨hx.1, fun u hu ↦ ?_⟩
    obtain ⟨_, -, _, -, -, hid, -⟩ := exists_of_mem_forall₂ hus hu
    exact hid

theorem valid_of_ofResult {r : ExtendedResult} {x : Typed OperationResult EndedTransaction}
    (h : ofResult r = .ok x) : x.payload.Valid := by
  obtain ⟨payload, hp, h⟩ := bind_eq_ok.1 h
  cases h
  have hnone : Valid ⟨none, []⟩ := ⟨by simp, by simp⟩
  cases hv : r.value with
  | none =>
    rw [hv] at hp
    cases hp
    exact hnone
  | some bytes =>
    rw [hv] at hp
    obtain ⟨fields, _, hp⟩ := bind_eq_ok.1 hp
    exact orderedFields_preserves valid_of_readField hnone hp

end EndedTransaction

namespace Trapping

variable (trap : DecodeError)

def controls : List (Meaning Control Bool KnownControl) :=
  [⟨excludeBranch trap, .excludeBranch⟩, ⟨ManageDsaIt.extension, .manageDsaIt⟩,
    ⟨passwordPolicy trap, .passwordPolicy⟩,
    ⟨TransactionSpecification.extension, .transactionSpecification⟩,
    ⟨JsonFormatted.request, .jsonRequest⟩, ⟨JsonFormatted.response, .jsonResponse⟩]

theorem controls_eq : controls trap = KnownControl.meanings := by
  rw [controls, excludeBranch_eq, passwordPolicy_eq, KnownControl.meanings]

def requests : List (Meaning ExtendedRequest Unit KnownRequest) :=
  [⟨generatePassword trap, .generatePassword⟩, ⟨backupQuery trap, .backupQuery⟩,
    ⟨StartTransaction.extension, .startTransaction⟩, ⟨endTransaction trap, .endTransaction⟩]

theorem requests_eq : requests trap = KnownRequest.meanings := by
  rw [requests, generatePassword_eq, backupQuery_eq, endTransaction_eq, KnownRequest.meanings]

def results : List (Meaning ExtendedResult OperationResult KnownResult) :=
  [⟨generatedPasswords trap, .generatedPasswords⟩, ⟨backupDescriptor trap, .backupDescriptor⟩]

theorem results_eq : results trap = KnownResult.meanings := by
  rw [results, generatedPasswords_eq, backupDescriptor_eq, KnownResult.meanings]

def intermediates : List (Meaning IntermediateResponse Unit KnownIntermediate) :=
  [⟨missingChangelog trap, .missingChangelog⟩]

theorem intermediates_eq : intermediates trap = KnownIntermediate.meanings := by
  rw [intermediates, missingChangelog_eq, KnownIntermediate.meanings]

end Trapping

/-- Nothing that is read from outside ends in a place outside of a list or in a constructor
that refuses its arguments: what these end with does not matter to any reader, nor to what
writes numbers, lengths and messages for them. And whatever is read satisfies what the
constructors ask for. -/
theorem readers_safe :
    (∀ trap,
      Trapping.readers trap .generic (Trapping.controls trap) = .ok KnownControl.readers ∧
      Trapping.readers trap .generic (Trapping.requests trap) = .ok KnownRequest.readers ∧
      Trapping.readers trap .generic (Trapping.results trap) = .ok KnownResult.readers ∧
      Trapping.readers trap .generic (Trapping.intermediates trap) =
        .ok KnownIntermediate.readers ∧
      (∀ (T : Type) (r : Registry Control T) policy notes list,
        Trapping.embedded trap r policy notes list = Embedded.decode r policy notes list) ∧
      (∀ (T : Type) (r : Registry Control T) policy notes items,
        Trapping.embeddedDocuments trap r policy notes items =
          Embedded.decodeDocuments r policy notes items) ∧
      (∀ r, Trapping.endedTransaction trap r = EndedTransaction.ofResult r) ∧
      (∀ v, -(2 ^ 63) ≤ v → v < 2 ^ 63 →
        Trapping.integerOctets trap v = .ok (Integer.octets v)) ∧
      (∀ n < 2 ^ 64, Trapping.lengthOctets trap n = .ok (Length.octets n)) ∧
      ∀ tag, Trapping.describe trap tag = .ok tag.describe) ∧
    KnownControl.readers.Sound (fun c ↦ c.oid ≠ "") KnownControl.Valid ∧
    KnownRequest.readers.Sound (fun r ↦ r.oid ≠ "") KnownRequest.Valid ∧
    KnownResult.readers.Sound (fun _ ↦ True) KnownResult.Valid ∧
    (∀ policy notes list ts notes',
      Embedded.decode KnownControl.registry policy notes list = (.ok ts, notes') →
        ∀ t ∈ ts, t.Valid) ∧
    (∀ policy notes items ts notes',
      Embedded.decodeDocuments KnownControl.registry policy notes items = (.ok ts, notes') →
        ∀ t ∈ ts, t.Valid) ∧
    (∀ r x, StartedTransaction.ofResult r = .ok x → x.result.code.isSuccess = true →
      x.transactionId ≠ none) ∧
    ∀ r x, EndedTransaction.ofResult r = .ok x → x.payload.Valid := by
  have hsound := KnownControl.readers_sound
  refine ⟨fun trap ↦ ⟨?_, ?_, ?_, ?_, fun _ ↦ Trapping.embedded_eq trap,
      fun _ ↦ Trapping.embeddedDocuments_eq trap, Trapping.endedTransaction_eq trap,
      fun _ ↦ Trapping.integerOctets_eq trap, fun _ ↦ Trapping.lengthOctets_eq trap,
      Trapping.describe_eq trap⟩,
    hsound, KnownRequest.readers_sound, KnownResult.readers_sound, ?_, ?_,
    fun _ _ ↦ StartedTransaction.transactionId_of_ofResult,
    fun _ _ ↦ EndedTransaction.valid_of_ofResult⟩
  · rw [Trapping.controls_eq]
    exact Trapping.readers_eq trap .generic (by decide) KnownControl.named
  · rw [Trapping.requests_eq]
    exact Trapping.readers_eq trap .generic (by decide) KnownRequest.named
  · rw [Trapping.results_eq]
    exact Trapping.readers_eq trap .generic (by decide) KnownResult.named
  · rw [Trapping.intermediates_eq]
    exact Trapping.readers_eq trap .generic (by decide) KnownIntermediate.named
  · intro policy notes list ts notes' h
    unfold Embedded.decode at h
    split at h
    · cases h
    · exact Embedded.of_decodeItems (fun _ _ _ ↦ Embedded.of_ofElement hsound rfl) h
  · intro policy notes items ts notes' h
    exact Embedded.of_decodeItems (fun _ _ _ ↦ Embedded.of_ofValue hsound rfl) h

theorem readers_safe_warning :
    let c : Control := ⟨"1.3.6.1.4.1.42.2.27.8.5.1", false, some [0x30, 5, 0xA0, 3, 0x80, 1, 5]⟩
    let t : KnownControl :=
      .passwordPolicy ⟨false, ⟨some (.timeBeforeExpiration 5), none⟩, .of c.value⟩
    let r : ExtendedResult := ⟨.success, none, some [7]⟩
    let x : StartedTransaction := .build [7]
    (KnownControl.readers.decode c = .ok t ∧ t.Valid) ∧
      StartedTransaction.ofResult r = .ok x ∧ x.transactionId ≠ none := by
  intro c t r x
  have hc : KnownControl.readers.decode c = .ok t := rfl
  have hr : StartedTransaction.ofResult r = .ok x := rfl
  obtain ⟨-, hcontrols, -, -, -, -, hstarted, -⟩ := readers_safe
  exact ⟨⟨hc, hcontrols.decode c t (by decide) hc⟩, hr, hstarted r x hr rfl⟩

end LdapCodec
