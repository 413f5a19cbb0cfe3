import LdapCodec.Known
import LdapCodec.Proofs.Outcome
import Mathlib.Data.List.Nodup

namespace LdapCodec

open Envelope (oid? header value? make)

structure Meaning (E H T : Type) where
  {payload : Type}
  extension : Extension E H payload
  wrap : Typed H payload → T

def Meaning.entry {E H T : Type} [Envelope E H] (m : Meaning E H T) : Registry.Entry E T :=
  .ofExtension m.extension m.wrap

namespace KnownControl

def meanings : List (Meaning Control Bool KnownControl) :=
  [⟨ExcludeBranch.extension, excludeBranch⟩, ⟨ManageDsaIt.extension, manageDsaIt⟩,
    ⟨PasswordPolicy.extension, passwordPolicy⟩,
    ⟨TransactionSpecification.extension, transactionSpecification⟩,
    ⟨JsonFormatted.request, jsonRequest⟩, ⟨JsonFormatted.response, jsonResponse⟩]

end KnownControl

namespace KnownRequest

def meanings : List (Meaning ExtendedRequest Unit KnownRequest) :=
  [⟨GeneratePassword.extension, generatePassword⟩, ⟨BackupQuery.extension, backupQuery⟩,
    ⟨StartTransaction.extension, startTransaction⟩, ⟨EndTransaction.extension, endTransaction⟩]

end KnownRequest

namespace KnownResult

def meanings : List (Meaning ExtendedResult OperationResult KnownResult) :=
  [⟨GeneratedPasswords.extension, generatedPasswords⟩,
    ⟨BackupDescriptor.extension, backupDescriptor⟩]

end KnownResult

namespace KnownIntermediate

def meanings : List (Meaning IntermediateResponse Unit KnownIntermediate) :=
  [⟨MissingChangelog.extension, missingChangelog⟩]

end KnownIntermediate

namespace Extension

variable {E H α : Type} [Envelope E H] {x : Extension E H α}

theorem checkOid_eq_ok_iff {e : E} {expected name : String} :
    Envelope.checkOid e expected name = .ok () ↔ oid? e = some expected := by
  unfold Envelope.checkOid
  cases oid? e with
  | none => simp
  | some oid =>
    by_cases he : oid = expected
    · simp [he]
    · simp [he]

theorem checkOid_eq_error {e : E} {expected : String} (h : oid? e ≠ some expected)
    (name : String) :
    ∃ message, Envelope.checkOid e expected name = .error (.decoding message) := by
  unfold Envelope.checkOid
  cases ho : oid? e with
  | none => exact ⟨_, rfl⟩
  | some oid => exact ⟨_, if_neg fun he ↦ h (ho.trans (congrArg some he))⟩

theorem oid?_toEnvelope (t : Typed H α) : oid? (x.toEnvelope t) = some x.oid :=
  Envelope.oid?_make _ _ _

theorem header_toEnvelope (t : Typed H α) : header (x.toEnvelope t) = t.header :=
  Envelope.header_make _ _ _

theorem toEnvelope_new (hd : H) (a : α) :
    x.toEnvelope (.new hd a) = make x.oid hd (x.encodeValue a) := by
  simp only [toEnvelope, Typed.new, keep_nothing]
  rfl

/-- The value is looked at once the identifier is the right one. -/
theorem decode_of_oid? {e : E} (h : oid? e = some x.oid) :
    x.decode e = (x.decodeValue (header e) (value? e)).map
      (⟨header e, ·, x.keep (.of (value? e))⟩) := by
  rw [decode, checkOid_eq_ok_iff.2 h, ok_bind]
  rfl

/-- What a decoded element keeps of its envelope. -/
theorem decode_eq_ok {e : E} {t : Typed H α} (h : x.decode e = .ok t) :
    oid? e = some x.oid ∧ x.decodeValue (header e) (value? e) = .ok t.payload ∧
      t.header = header e ∧ t.received = x.keep (.of (value? e)) := by
  obtain ⟨_, ho, h⟩ := bind_eq_ok.1 h
  obtain ⟨payload, hp, h⟩ := bind_eq_ok.1 h
  cases h
  exact ⟨checkOid_eq_ok_iff.1 ho, hp, rfl, rfl⟩

theorem make_of_decode {e : E} {t : Typed H α} (h : x.decode e = .ok t) :
    make x.oid t.header (value? e) = e := by
  obtain ⟨ho, _, hh, _⟩ := decode_eq_ok h
  rw [hh, Envelope.make_of_oid? e x.oid ho]

/-- A value is read only in the octets that are written for what it says. -/
def WritesBack (x : Extension E H α) : Prop :=
  ∀ hd value a, x.decodeValue hd value = .ok a → x.encodeValue a = value

theorem WritesBack.toEnvelope_new (hx : x.WritesBack) {e : E} {t : Typed H α}
    (h : x.decode e = .ok t) (hd : H) :
    x.toEnvelope (.new hd t.payload) = make x.oid hd (value? e) := by
  obtain ⟨_, hp, _⟩ := decode_eq_ok h
  rw [Extension.toEnvelope_new, hx _ _ _ hp]

/-- What an element says makes the whole envelope again. -/
theorem WritesBack.toEnvelope_of_decode (hx : x.WritesBack) {e : E} {t : Typed H α}
    (h : x.decode e = .ok t) : x.toEnvelope (.new t.header t.payload) = e := by
  rw [hx.toEnvelope_new h, make_of_decode h]

/-- A value that is not kept has to be written as it was. -/
def Lossless (x : Extension E H α) : Prop := x.keepsValue = false → x.WritesBack

omit [Envelope E H] in
theorem Lossless.of_keeps (h : x.keepsValue = true) : x.Lossless := fun hn ↦ by
  rw [h] at hn
  cases hn

/-- A decoded element under another header goes back with the value it came with. -/
theorem Lossless.toEnvelope_withHeader (hx : x.Lossless) {e : E} {t : Typed H α}
    (h : x.decode e = .ok t) (hd : H) :
    x.toEnvelope (t.withHeader hd) = make x.oid hd (value? e) := by
  obtain ⟨_, _, _, hr⟩ := decode_eq_ok h
  cases hk : x.keepsValue with
  | true =>
    have hkeep (r : Received) : x.keep r = r := if_pos hk
    simp only [toEnvelope, Typed.withHeader, hr, hkeep]
    rfl
  | false =>
    have hkeep (r : Received) : x.keep r = .nothing := if_neg (Bool.eq_false_iff.1 hk)
    have hnew : t.withHeader hd = .new hd t.payload := by
      simp only [Typed.withHeader, hr, hkeep]
      rfl
    rw [hnew, (hx hk).toEnvelope_new h]

theorem Lossless.toEnvelope_of_decode (hx : x.Lossless) {e : E} {t : Typed H α}
    (h : x.decode e = .ok t) : x.toEnvelope t = e :=
  (hx.toEnvelope_withHeader h t.header).trans (make_of_decode h)

end Extension

theorem ManageDsaIt.writesBack : extension.WritesBack := by
  rintro hd (_ | bytes) x h
  · rfl
  · cases h

theorem TransactionSpecification.writesBack : extension.WritesBack := by
  rintro hd (_ | bytes) x h
  · cases h
  · cases h
    rfl

theorem StartTransaction.writesBack : extension.WritesBack := by
  rintro hd (_ | bytes) x h
  · rfl
  · cases h

namespace Registry

variable {E H T α : Type} [Envelope E H]

def Entry.Gives (P : E → T → Prop) (entry : Entry E T) : Prop :=
  ∀ e t, entry.decode e = .ok t → P e t

theorem Entry.Gives.ofExtension {x : Extension E H α} {wrap : Typed H α → T} {P : E → T → Prop}
    (hx : ∀ e t, x.decode e = .ok t → P e (wrap t)) : (Entry.ofExtension x wrap).Gives P := by
  intro e t h
  obtain ⟨u, hu, rfl⟩ := map_eq_ok.1 h
  exact hx e u hu

theorem mem_of_find? {r : Registry E T} {oid : String} {entry : Entry E T}
    (h : r.find? oid = some entry) : entry ∈ r.entries ∧ entry.oid = oid :=
  ⟨List.mem_of_find?_eq_some h, by simpa using List.find?_some h⟩

theorem entry?_eq_some {r : Registry E T} {e : E} {entry : Entry E T}
    (h : r.entry? e = some entry) : entry ∈ r.entries ∧ oid? e = some entry.oid := by
  obtain ⟨oid, ho, hf⟩ := Option.bind_eq_some_iff.1 h
  obtain ⟨hm, rfl⟩ := mem_of_find? hf
  exact ⟨hm, ho⟩

/-- Identifiers are distinct, so that every entry is found by its own. -/
theorem entry?_of_mem {r : Registry E T} {entry : Entry E T} (h : entry ∈ r.entries) {e : E}
    (ho : oid? e = some entry.oid) : r.entry? e = some entry := by
  unfold entry? find?
  rw [ho, Option.bind_some]
  cases hf : r.entries.find? (fun found ↦ found.oid == entry.oid) with
  | none => exact absurd rfl (oid_ne_of_find?_eq_none hf entry h)
  | some found =>
    obtain ⟨hm, hoid⟩ := mem_of_find? hf
    rw [List.inj_on_of_nodup_map r.distinct hm h hoid]

/-- Which entry an envelope goes to is told by its identifier alone. -/
theorem entry?_congr {r : Registry E T} {e e' : E} (h : oid? e' = oid? e) :
    r.entry? e' = r.entry? e := by
  unfold entry?
  rw [h]

theorem decode_eq_of_entry {r : Registry E T} {e : E} {entry : Entry E T}
    (h : r.entry? e = some entry) : r.decode e = entry.decode e := by
  rw [decode, h]

theorem decode_of_mem {r : Registry E T} {x : Extension E H α} {wrap : Typed H α → T}
    (hm : Entry.ofExtension x wrap ∈ r.entries) {e : E} (ho : oid? e = some x.oid) :
    r.decode e = (x.decode e).map wrap := decode_eq_of_entry (entry?_of_mem hm ho)

theorem Entry.write?_ofExtension (x : Extension E H α) (wrap : Typed H α → T) (e : E) :
    (Entry.ofExtension x wrap).form.bind (·.write? e) = (x.decode e).toOption.bind x.toJson? := by
  simp only [Entry.ofExtension, Option.bind_some]
  cases x.decode e with
  | error err => rfl
  | ok t => rfl

theorem toJson?_of_mem {r : Registry E T} {x : Extension E H α} {wrap : Typed H α → T}
    (hm : Entry.ofExtension x wrap ∈ r.entries) {e : E} (ho : oid? e = some x.oid) :
    r.toJson? e = (x.decode e).toOption.bind x.toJson? := by
  rw [toJson?, entry?_of_mem hm ho, Option.bind_some, Entry.write?_ofExtension]

theorem name?_of_mem {r : Registry E T} {entry : Entry E T} (h : entry ∈ r.entries) {e : E}
    (ho : oid? e = some entry.oid) : r.name? entry.oid = some entry.name := by
  have he := entry?_of_mem h ho
  rw [Registry.entry?, ho, Option.bind_some] at he
  rw [name?, he, Option.map_some]

theorem form?_of_entry {r : Registry E T} {e : E} {entry : Entry E T} {form : Form E T}
    (he : r.entry? e = some entry) (hf : entry.form = some form) : r.form? e = .ok form := by
  rw [form?, he, Option.bind_some, hf]

theorem form?_eq_ok {r : Registry E T} {e : E} {form : Form E T} (h : r.form? e = .ok form) :
    ∃ entry, r.entry? e = some entry ∧ entry.form = some form := by
  unfold form? at h
  split at h
  · rename_i found hb
    cases h
    exact Option.bind_eq_some_iff.1 hb
  · cases h

theorem toJson?_eq_some {r : Registry E T} {e : E} {v : Json.Value} (h : r.toJson? e = some v) :
    ∃ entry form, r.entry? e = some entry ∧ entry.form = some form ∧ form.write? e = some v := by
  obtain ⟨form, hf, hw⟩ := Option.bind_eq_some_iff.1 h
  obtain ⟨entry, he, hef⟩ := Option.bind_eq_some_iff.1 hf
  exact ⟨entry, form, he, hef, hw⟩

/-- An envelope is decoded by an entry, or left as it is. -/
theorem of_decode {r : Registry E T} {P : E → T → Prop} (hr : ∀ entry ∈ r.entries, entry.Gives P)
    (hg : ∀ e, P e (r.generic e)) {e : E} {t : T} (h : r.decode e = .ok t) : P e t := by
  unfold decode at h
  split at h
  · rename_i entry he
    exact hr entry (entry?_eq_some he).1 e t h
  · cases h
    exact hg e

end Registry

structure Meaning.Lossless {E H T : Type} [Envelope E H] (back : T → E) (m : Meaning E H T) :
    Prop where
  extension : m.extension.Lossless
  back_wrap : ∀ t, back (m.wrap t) = m.extension.toEnvelope t

theorem Registry.back_of_decode {E H T : Type} [Envelope E H] {r : Registry E T} {back : T → E}
    {ms : List (Meaning E H T)} (hr : r.entries = ms.map Meaning.entry)
    (hm : ∀ m ∈ ms, m.Lossless back) (hg : ∀ e, back (r.generic e) = e) {e : E} {t : T}
    (h : r.decode e = .ok t) : back t = e := by
  have hentries : ∀ entry ∈ r.entries, entry.Gives fun e t ↦ back t = e := by
    rw [hr, List.forall_mem_map]
    intro m hmem
    refine .ofExtension fun e t ht ↦ ?_
    rw [(hm m hmem).back_wrap, (hm m hmem).extension.toEnvelope_of_decode ht]
  exact of_decode hentries hg h

theorem KnownControl.lossless : ∀ m ∈ meanings, m.Lossless toEnvelope := by
  simp only [meanings, List.forall_mem_cons]
  exact ⟨⟨.of_keeps rfl, fun _ ↦ rfl⟩, ⟨fun _ ↦ ManageDsaIt.writesBack, fun _ ↦ rfl⟩,
    ⟨.of_keeps rfl, fun _ ↦ rfl⟩, ⟨fun _ ↦ TransactionSpecification.writesBack, fun _ ↦ rfl⟩,
    ⟨.of_keeps rfl, fun _ ↦ rfl⟩, ⟨.of_keeps rfl, fun _ ↦ rfl⟩, by simp⟩

theorem KnownRequest.lossless : ∀ m ∈ meanings, m.Lossless toEnvelope := by
  simp only [meanings, List.forall_mem_cons]
  exact ⟨⟨.of_keeps rfl, fun _ ↦ rfl⟩, ⟨.of_keeps rfl, fun _ ↦ rfl⟩,
    ⟨fun _ ↦ StartTransaction.writesBack, fun _ ↦ rfl⟩, ⟨.of_keeps rfl, fun _ ↦ rfl⟩, by simp⟩

theorem KnownResult.lossless : ∀ m ∈ meanings, m.Lossless toEnvelope := by
  simp only [meanings, List.forall_mem_cons]
  exact ⟨⟨.of_keeps rfl, fun _ ↦ rfl⟩, ⟨.of_keeps rfl, fun _ ↦ rfl⟩, by simp⟩

theorem KnownIntermediate.lossless : ∀ m ∈ meanings, m.Lossless toEnvelope := by
  simp only [meanings, List.forall_mem_cons]
  exact ⟨⟨.of_keeps rfl, fun _ ↦ rfl⟩, by simp⟩

/-- The header of a control is its criticality. -/
theorem Control.toEnvelope_withHeader {α : Type} {x : Extension Control Bool α} (hx : x.Lossless)
    {c : Control} {t : Typed Bool α} (h : x.decode c = .ok t) (critical : Bool) :
    x.toEnvelope (t.withHeader critical) = c.withCriticality critical := by
  obtain ⟨ho, _⟩ := Extension.decode_eq_ok h
  have hc : c.oid = x.oid := by simpa [oid?] using ho
  rw [hx.toEnvelope_withHeader h]
  simp only [make, value?, withCriticality, hc]

theorem StartedTransaction.toResult_of_ofResult {r : ExtendedResult} {x : StartedTransaction}
    (h : ofResult r = .ok x) : x.toResult = { r with oid := none } := by
  unfold ofResult at h
  split at h
  · simp at h
  · cases h
    rfl

theorem EndedTransaction.toResult_of_ofResult {r : ExtendedResult}
    {x : Typed OperationResult EndedTransaction} (h : ofResult r = .ok x) :
    toResult x = { r with oid := none } := by
  obtain ⟨payload, _, h⟩ := bind_eq_ok.1 h
  cases h
  rfl

/-- Envelopes of every kind survive their meaning: header and value come back as they were,
in whatever octets the value was spelled. Elements that do not hold on to their value come back
from what they say alone. A criticality that is changed in between is the only thing that
changes. Results of transactions do not name an identifier of their own. -/
theorem dispatch_lossless :
    (∀ c t, KnownControl.registry.decode c = .ok t → t.toEnvelope = c) ∧
    (∀ q t, KnownRequest.registry.decode q = .ok t → t.toEnvelope = q) ∧
    (∀ r t, KnownResult.registry.decode r = .ok t → t.toEnvelope = r) ∧
    (∀ r t, KnownIntermediate.registry.decode r = .ok t → t.toEnvelope = r) ∧
    (∀ c t, ManageDsaIt.extension.decode c = .ok t →
      ManageDsaIt.extension.toEnvelope (.new t.header t.payload) = c) ∧
    (∀ c t, TransactionSpecification.extension.decode c = .ok t →
      TransactionSpecification.extension.toEnvelope (.new t.header t.payload) = c) ∧
    (∀ q t, StartTransaction.extension.decode q = .ok t →
      StartTransaction.extension.toEnvelope (.new t.header t.payload) = q) ∧
    (∀ c t critical, PasswordPolicy.extension.decode c = .ok t →
      PasswordPolicy.extension.toEnvelope (t.withHeader critical) = c.withCriticality critical) ∧
    (∀ c t critical, TransactionSpecification.extension.decode c = .ok t →
      TransactionSpecification.extension.toEnvelope (t.withHeader critical) =
        c.withCriticality critical) ∧
    (∀ c t critical, JsonFormatted.request.decode c = .ok t →
      JsonFormatted.request.toEnvelope (t.withHeader critical) = c.withCriticality critical) ∧
    (∀ c t critical, JsonFormatted.response.decode c = .ok t →
      JsonFormatted.response.toEnvelope (t.withHeader critical) = c.withCriticality critical) ∧
    (∀ r x, StartedTransaction.ofResult r = .ok x →
      x.toResult = { r with oid := none } ∧ (r.oid = none → x.toResult = r)) ∧
    (∀ r x, EndedTransaction.ofResult r = .ok x →
      EndedTransaction.toResult x = { r with oid := none } ∧
        (r.oid = none → EndedTransaction.toResult x = r)) := by
  have hn : ∀ r : ExtendedResult, r.oid = none → { r with oid := none } = r := by
    rintro ⟨result, oid, value⟩ h
    cases h
    rfl
  have htransaction : TransactionSpecification.extension.Lossless :=
    fun _ ↦ TransactionSpecification.writesBack
  refine ⟨fun _ _ ↦ Registry.back_of_decode rfl KnownControl.lossless fun _ ↦ rfl,
    fun _ _ ↦ Registry.back_of_decode rfl KnownRequest.lossless fun _ ↦ rfl,
    fun _ _ ↦ Registry.back_of_decode rfl KnownResult.lossless fun _ ↦ rfl,
    fun _ _ ↦ Registry.back_of_decode rfl KnownIntermediate.lossless fun _ ↦ rfl,
    fun _ _ ↦ ManageDsaIt.writesBack.toEnvelope_of_decode,
    fun _ _ ↦ TransactionSpecification.writesBack.toEnvelope_of_decode,
    fun _ _ ↦ StartTransaction.writesBack.toEnvelope_of_decode,
    fun _ _ critical h ↦ Control.toEnvelope_withHeader (.of_keeps rfl) h critical,
    fun _ _ critical h ↦ Control.toEnvelope_withHeader htransaction h critical,
    fun _ _ critical h ↦ Control.toEnvelope_withHeader (.of_keeps rfl) h critical,
    fun _ _ critical h ↦ Control.toEnvelope_withHeader (.of_keeps rfl) h critical, ?_, ?_⟩
  · intro r x h
    have hx := StartedTransaction.toResult_of_ofResult h
    exact ⟨hx, fun ho ↦ hx.trans (hn r ho)⟩
  · intro r x h
    have hx := EndedTransaction.toResult_of_ofResult h
    exact ⟨hx, fun ho ↦ hx.trans (hn r ho)⟩

/-- A policy whose length takes an octet more than it needs, controls and a request that say all
there is, and the end of a transaction that came under a name. -/
theorem dispatch_lossless_padded :
    let c : Control := ⟨"1.3.6.1.4.1.42.2.27.8.5.1", true, some [0x30, 0x81, 3, 0x81, 1, 1]⟩
    let t : Typed Bool PasswordPolicy := ⟨true, ⟨none, some .accountLocked⟩, .of c.value⟩
    let manage : Control := ⟨"2.16.840.1.113730.3.4.2", true, none⟩
    let update : Control := ⟨"1.3.6.1.1.21.2", false, some [0, 0xFF]⟩
    let start : ExtendedRequest := ⟨"1.3.6.1.1.21.1", none⟩
    let r : ExtendedResult := ⟨.success, some "1.2", some [0x30, 0x81, 3, 2, 1, 7]⟩
    let x : Typed OperationResult EndedTransaction := ⟨.success, ⟨some 7, []⟩, .of r.value⟩
    (KnownControl.registry.decode c = .ok (.passwordPolicy t) ∧
      (KnownControl.passwordPolicy t).toEnvelope = c) ∧
    (PasswordPolicy.extension.decode c = .ok t ∧
      PasswordPolicy.extension.toEnvelope (t.withHeader false) = c.withCriticality false) ∧
    (ManageDsaIt.extension.decode manage = .ok (ManageDsaIt.build true) ∧
      ManageDsaIt.extension.toEnvelope (ManageDsaIt.build true) = manage) ∧
    (TransactionSpecification.extension.decode update =
        .ok (TransactionSpecification.build false [0, 0xFF]) ∧
      TransactionSpecification.extension.toEnvelope
        (TransactionSpecification.build false [0, 0xFF]) = update) ∧
    (StartTransaction.extension.decode start = .ok StartTransaction.build ∧
      StartTransaction.extension.toEnvelope StartTransaction.build = start) ∧
    (EndedTransaction.ofResult r = .ok x ∧
      EndedTransaction.toResult x = { r with oid := none }) := by
  intro c t manage update start r x
  obtain ⟨hcontrols, -, -, -, hmanage, hupdate, hstart, hpolicy, -, -, -, -, hended⟩ :=
    dispatch_lossless
  exact ⟨⟨rfl, hcontrols c _ rfl⟩, ⟨rfl, hpolicy c t false rfl⟩, ⟨rfl, hmanage manage _ rfl⟩,
    ⟨rfl, hupdate update _ rfl⟩, ⟨rfl, hstart start _ rfl⟩, ⟨rfl, (hended r x rfl).1⟩⟩

end LdapCodec
