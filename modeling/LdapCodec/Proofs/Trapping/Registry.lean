import LdapCodec.Proofs.Trapping.Extension

namespace LdapCodec

open Json

/-- All that reads envelopes of one kind from outside, and what they mean: of octets, of
envelopes, of structured values and of documents. `typed` read documents whose identifier is
known beforehand. -/
structure Readers (E T : Type) where
  ofBytes : Bytes → Except DecodeError E
  decode : E → Except DecodeError T
  ofJson : E → Value → (strict : Bool) → Except DecodeError T
  rebuild : E → Value → (strict : Bool) → Except DecodeError E
  envelopeOfDocument : (strict : Bool) → Value → Except DecodeError E
  ofDocument : (strict : Bool) → Value → Except DecodeError T
  typed : List ((strict : Bool) → Value → Except DecodeError T)

section

variable {E H T : Type} [Envelope E H]

def Registry.ofMeanings (generic : E → T) (ms : List (Meaning E H T))
    (h : (ms.map fun m ↦ m.extension.oid).Nodup) : Registry E T where
  generic := generic
  entries := ms.map Meaning.entry
  distinct := by rwa [List.map_map]

variable [Documented E]

def Meaning.ofDocument (m : Meaning E H T) (strict : Bool) (document : Value) :
    Except DecodeError T :=
  (m.extension.ofDocument strict document).map m.wrap

def Registry.readers (r : Registry E T) (ms : List (Meaning E H T)) : Readers E T where
  ofBytes := Envelope.decode
  decode := r.decode
  ofJson := r.ofJson
  rebuild := r.rebuild
  envelopeOfDocument := r.envelopeOfDocument
  ofDocument := r.ofDocument
  typed := ms.map Meaning.ofDocument

end

namespace Trapping

variable (trap : DecodeError) {E H T α : Type} [Envelope E H] [Kind E]

theorem accepts_toEnvelope {x : Extension E H α} (h : x.oid ≠ "") (t : Typed H α) :
    Kind.Accepts (x.toEnvelope t) := by
  apply Kind.accepts_of_oid?
  rw [Extension.oid?_toEnvelope]
  exact fun ho ↦ h (Option.some.inj ho)

def entry (m : Meaning E H T) : Registry.Entry E T :=
  { m.entry with
    form := m.entry.form.map fun form ↦
      { form with
        rebuild := fun header v strict ↦ do
          Kind.construct trap (← form.rebuild header v strict) } }

theorem entry_eq {m : Meaning E H T} (h : m.extension.oid ≠ "") : entry trap m = m.entry := by
  have hmade (t : Typed H m.payload) :
      Kind.construct trap (m.extension.toEnvelope t) = .ok (m.extension.toEnvelope t) :=
    Kind.construct_eq trap _ (accepts_toEnvelope h t)
  have hrebuild (header : E) (v : Value) (strict : Bool) :
      (do
        let e ← (m.extension.ofJson header v strict).map m.extension.toEnvelope
        Kind.construct trap e) =
      (m.extension.ofJson header v strict).map m.extension.toEnvelope := by
    cases m.extension.ofJson header v strict with
    | error err => rfl
    | ok t => exact hmade t
  simp only [entry, Meaning.entry, Registry.Entry.ofExtension, Option.map_some, hrebuild]

def registry (generic : E → T) (ms : List (Meaning E H T)) : Except DecodeError (Registry E T) :=
  ms.foldlM (fun r m ↦ built trap (r.insert (entry trap m))) (Registry.empty generic)

theorem insert_eq_ok {r : Registry E T} {e : Registry.Entry E T}
    (h : e.oid ∉ r.entries.map Registry.Entry.oid) :
    ∃ r', r.insert e = .ok r' ∧ r'.generic = r.generic ∧ r'.entries = r.entries ++ [e] := by
  unfold Registry.insert
  split
  · rename_i found hf
    obtain ⟨hm, ho⟩ := Registry.mem_of_find? hf
    exact absurd (List.mem_map.2 ⟨found, hm, ho⟩) h
  · exact ⟨_, rfl, rfl, rfl⟩

theorem foldlM_insert {ms : List (Meaning E H T)} (hn : ∀ m ∈ ms, m.extension.oid ≠ "")
    {r : Registry E T}
    (hd : (r.entries.map Registry.Entry.oid ++ ms.map fun m ↦ m.extension.oid).Nodup) :
    ∃ r', ms.foldlM (fun r m ↦ built trap (r.insert (entry trap m))) r = .ok r' ∧
      r'.generic = r.generic ∧ r'.entries = r.entries ++ ms.map Meaning.entry := by
  induction ms generalizing r with
  | nil => exact ⟨r, rfl, rfl, by simp⟩
  | cons m ms ih =>
    obtain ⟨hm, hms⟩ := List.forall_mem_cons.1 hn
    have hnew : m.entry.oid ∉ r.entries.map Registry.Entry.oid := fun ho ↦
      (List.nodup_append.1 hd).2.2 _ ho _ List.mem_cons_self rfl
    obtain ⟨r₁, hr₁, hg₁, he₁⟩ := insert_eq_ok hnew
    obtain ⟨r₂, hr₂, hg₂, he₂⟩ := ih (r := r₁) hms (by
      rw [he₁, List.map_append, List.append_assoc]
      exact hd)
    refine ⟨r₂, ?_, hg₂.trans hg₁, ?_⟩
    · rw [List.foldlM_cons, entry_eq trap hm, hr₁, built_ok, ok_bind, hr₂]
    · rw [he₂, he₁, List.map_cons, List.append_assoc, List.singleton_append]

theorem registry_eq (generic : E → T) {ms : List (Meaning E H T)}
    (hd : (ms.map fun m ↦ m.extension.oid).Nodup) (hn : ∀ m ∈ ms, m.extension.oid ≠ "") :
    registry trap generic ms = .ok (.ofMeanings generic ms hd) := by
  obtain ⟨⟨generic', entries, distinct⟩, hr, hg, he⟩ :=
    foldlM_insert trap hn (r := Registry.empty generic) (by simpa [Registry.empty] using hd)
  cases (hg : generic' = generic)
  cases (he : entries = ms.map Meaning.entry)
  exact hr

variable [Documented E]

def readers (generic : E → T) (ms : List (Meaning E H T)) : Except DecodeError (Readers E T) := do
  let r ← registry trap generic ms
  .ok
    { ofBytes := ofBytes trap
      decode := r.decode
      ofJson := r.ofJson
      rebuild := r.rebuild
      envelopeOfDocument := fun strict document ↦ do
        let parsed ← parse (E := E) trap strict document
        match parsed.structured with
        | some v => r.rebuild parsed.envelope v strict
        | none => .ok parsed.envelope
      ofDocument := fun strict document ↦ do
        let parsed ← parse (E := E) trap strict document
        r.ofParsed strict parsed
      typed := ms.map fun m strict document ↦
        (do
          let parsed ← parse (E := E) trap strict document
          match parsed.structured with
          | some v => m.extension.ofJson parsed.envelope v strict
          | none => m.extension.decode parsed.envelope).map m.wrap }

theorem readers_eq [Documented.Named E] (generic : E → T) {ms : List (Meaning E H T)}
    (hd : (ms.map fun m ↦ m.extension.oid).Nodup) (hn : ∀ m ∈ ms, m.extension.oid ≠ "") :
    readers trap generic ms = .ok ((Registry.ofMeanings generic ms hd).readers ms) := by
  have hb : ofBytes (E := E) trap = Envelope.decode := funext (ofBytes_eq trap)
  rw [readers, registry_eq trap generic hd hn, ok_bind]
  simp only [hb, parse_eq]
  rfl

section

variable (r : Registry Control T) (policy : DecodePolicy)

def embeddedElement (index : Nat) (e : Ber.Element) : Except Embedded.Fault T :=
  match control trap e with
  | .error err => .error (Embedded.unparsable policy index err)
  | .ok c => (r.decode c).mapError (Embedded.invalid policy index c)

def embeddedValue (index : Nat) (v : Value) : Except Embedded.Fault T :=
  match parse (E := Control) trap policy.strict v with
  | .error err => .error (Embedded.unparsable policy index err)
  | .ok parsed =>
    (r.ofParsed policy.strict parsed).mapError (Embedded.invalid policy index parsed.envelope)

def embedded (notes : List String) (list : Ber.Element) :
    Except DecodeError (List T) × List String :=
  match within "Embedded controls" list.asChildren with
  | .error e => (.error e, notes)
  | .ok items => Embedded.decodeItems (embeddedElement trap r policy) 0 notes items

def embeddedDocuments (notes : List String) (items : List Value) :
    Except DecodeError (List T) × List String :=
  Embedded.decodeItems (embeddedValue trap r policy) 0 notes items

theorem embedded_eq (notes : List String) (list : Ber.Element) :
    embedded trap r policy notes list = Embedded.decode r policy notes list := by
  have he : embeddedElement trap r policy = Embedded.ofElement r policy := by
    funext index e
    simp only [embeddedElement, control_eq]
    rfl
  rw [embedded, he]
  rfl

theorem embeddedDocuments_eq (notes : List String) (items : List Value) :
    embeddedDocuments trap r policy notes items =
      Embedded.decodeDocuments r policy notes items := by
  have hv : embeddedValue trap r policy = Embedded.ofValue r policy := by
    funext index v
    simp only [embeddedValue, parse_eq]
    rfl
  rw [embeddedDocuments, hv]
  rfl

end

end Trapping

end LdapCodec
