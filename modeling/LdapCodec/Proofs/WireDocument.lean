import LdapCodec.Proofs.Document
import LdapCodec.Proofs.Reencoding

namespace LdapCodec

open Ber
open Documented.Lawful (Plain)
open Envelope (decode kind oid?)

namespace Document

variable {E H : Type} [Envelope E H] [Documented E] [Documented.Keyed E] [Documented.Lawful E]
  {bytes : Bytes} {e : E}

/-- What is read from octets comes back from its document, unless its identifier is the empty
one. -/
theorem parse_ofEnvelope_of_decode (hp : ∀ x (e : E), Envelope.ofElement x = .ok e → Plain e)
    (h : decode bytes = .ok e) (name : Option String) :
    parse false (ofEnvelope e name none) =
      if oid? e = some "" then .error (.decoding s!"Empty OID in {kind E} document")
      else .ok ⟨e, name, none⟩ := by
  obtain ⟨x, -, hx⟩ := bind_eq_ok.1 h
  rw [parse_ofEnvelope_eq (hp x e hx), checkOid_lenient]
  split
  · rfl
  · rfl

/-- For the kinds whose readers refuse the empty identifier. -/
theorem parse_ofEnvelope_of_named (hp : ∀ x (e : E), Envelope.ofElement x = .ok e → Plain e)
    (ho : ∀ x (e : E), Envelope.ofElement x = .ok e → oid? e ≠ some "")
    (h : decode bytes = .ok e) (name : Option String) :
    parse false (ofEnvelope e name none) = .ok ⟨e, name, none⟩ := by
  obtain ⟨x, -, hx⟩ := bind_eq_ok.1 h
  rw [parse_ofEnvelope_of_decode hp h, if_neg (ho x e hx)]

end Document

/-- Envelopes that were read from octets have documents that are read as the same envelopes.
Readers of results and of intermediate responses let an empty name pass, and the readers of
documents refuse it. -/
theorem wire_documents_read (bytes : Bytes) (name : Option String) :
    (∀ c : Control, decode bytes = .ok c →
      Document.parse false (Document.ofEnvelope c name none) = .ok ⟨c, name, none⟩) ∧
    (∀ q : ExtendedRequest, decode bytes = .ok q →
      Document.parse false (Document.ofEnvelope q name none) = .ok ⟨q, name, none⟩) ∧
    (∀ r : ExtendedResult, decode bytes = .ok r →
      Document.parse false (Document.ofEnvelope r name none) =
        if r.oid = some "" then .error (.decoding "Empty OID in extended result document")
        else .ok ⟨r, name, none⟩) ∧
    (∀ r : IntermediateResponse, decode bytes = .ok r →
      Document.parse false (Document.ofEnvelope r name none) =
        if r.oid = some "" then .error (.decoding "Empty OID in intermediate response document")
        else .ok ⟨r, name, none⟩) := by
  refine ⟨fun c h ↦ ?_, fun q h ↦ ?_, fun r h ↦ ?_, fun r h ↦ ?_⟩
  · refine Document.parse_ofEnvelope_of_named (fun _ _ _ ↦ trivial) (fun x c hc ho ↦ ?_) h name
    exact (Control.fields_of_ofElement hc).1 (Option.some.inj ho)
  · refine Document.parse_ofEnvelope_of_named (fun _ _ _ ↦ trivial) (fun x q hq ho ↦ ?_) h name
    exact (ExtendedRequest.fields_of_ofElement hq).1 (Option.some.inj ho)
  · exact Document.parse_ofEnvelope_of_decode (fun _ _ ↦ ExtendedResult.texts_of_ofElement) h name
  · exact Document.parse_ofEnvelope_of_decode (fun _ _ _ ↦ trivial) h name

/-- One envelope of each kind. The result has an empty name, and its document is refused. -/
theorem wire_documents_read_unnamed :
    let control : Bytes := [0x30, 10, 4, 3, 0x31, 0x2e, 0x32, 1, 1, 0xff, 4, 0]
    let request : Bytes := [0x77, 8, 0x80, 3, 0x31, 0x2e, 0x32, 0x81, 1, 7]
    let result : Bytes := [0x78, 9, 0x0a, 1, 0, 4, 0, 4, 0, 0x8a, 0]
    let response : Bytes := [0x79, 3, 0x81, 1, 7]
    let c : Control := ⟨"1.2", true, some []⟩
    let q : ExtendedRequest := ⟨"1.2", some [7]⟩
    let r : ExtendedResult := ⟨.success, some "", none⟩
    let i : IntermediateResponse := ⟨none, some [7]⟩
    (decode control = .ok c ∧ Document.parse false (Document.ofEnvelope c (some "Example") none) =
      .ok ⟨c, some "Example", none⟩) ∧
    (decode request = .ok q ∧
      Document.parse false (Document.ofEnvelope q none none) = .ok ⟨q, none, none⟩) ∧
    (decode result = .ok r ∧ Document.parse false (Document.ofEnvelope r none none) =
      (.error (.decoding "Empty OID in extended result document") :
        Except DecodeError (Parsed ExtendedResult))) ∧
    (decode response = .ok i ∧
      Document.parse false (Document.ofEnvelope i (some "") none) = .ok ⟨i, some "", none⟩) := by
  intro control request result response c q r i
  have hc : decode control = .ok c := by decide +kernel
  have hq : decode request = .ok q := by decide +kernel
  have hr : decode result = .ok r := by decide +kernel
  have hi : decode response = .ok i := by decide +kernel
  exact ⟨⟨hc, (wire_documents_read control (some "Example")).1 c hc⟩,
    ⟨hq, (wire_documents_read request none).2.1 q hq⟩,
    ⟨hr, (wire_documents_read result none).2.2.1 r hr⟩,
    ⟨hi, (wire_documents_read response (some "")).2.2.2 i hi⟩⟩

end LdapCodec
