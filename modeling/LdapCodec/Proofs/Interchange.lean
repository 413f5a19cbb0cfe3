import LdapCodec.Proofs.Embedded
import LdapCodec.Proofs.Envelope
import LdapCodec.Proofs.Meaning

namespace LdapCodec

open Envelope (oid? header)

namespace Embedded

variable {T : Type}

/-- Two ways to decode items come to the same, with the same notes, if they do so for every
single item. -/
theorem decodeItems_congr {ι : Type} {decode decode' : Nat → ι → Except Fault T} {bare : T → T}
    {items : List ι}
    (h : ∀ index, ∀ x ∈ items, (decode index x).map bare = (decode' index x).map bare)
    (index : Nat) (notes : List String) :
    (decodeItems decode index notes items).1.map (List.map bare) =
        (decodeItems decode' index notes items).1.map (List.map bare) ∧
      (decodeItems decode index notes items).2 = (decodeItems decode' index notes items).2 := by
  induction items generalizing index notes with
  | nil => exact ⟨rfl, rfl⟩
  | cons x items ih =>
    have hx := h index x List.mem_cons_self
    have ih := ih fun i y hy ↦ h i y (List.mem_cons_of_mem x hy)
    cases hd : decode index x with
    | error fault =>
      have hd' : decode' index x = .error fault := by
        rw [hd] at hx
        exact map_eq_error.1 hx.symm
      simp only [decodeItems, hd, hd']
      split
      · exact ⟨rfl, rfl⟩
      · exact ih (index + 1) _
    | ok y =>
      obtain ⟨y', hd', hy⟩ : ∃ y', decode' index x = .ok y' ∧ bare y' = bare y := by
        rw [hd] at hx
        exact map_eq_ok.1 hx.symm
      have hcons (z : T) (r : Except DecodeError (List T)) :
          (r.map (z :: ·)).map (List.map bare) = (r.map (List.map bare)).map (bare z :: ·) := by
        cases r <;> rfl
      obtain ⟨hr, hn⟩ := ih (index + 1) notes
      simp only [decodeItems, hd, hd', hcons, hr, hn, hy, and_self]

theorem invalid_congr {policy : DecodePolicy} {index : Nat} {c c' : Control}
    (ho : oid? c = oid? c') (hc : header c = header c') :
    invalid policy index c = invalid policy index c' := by
  have ho : c.oid = c'.oid := Option.some.inj ho
  have hc : c.critical = c'.critical := hc
  funext e
  simp only [invalid, ho, hc]

end Embedded

/-- A control means the same in octets and as a document, and has the same failures. -/
theorem KnownControl.ofElement_eq_ofValue {policy : DecodePolicy} {c : Control}
    (hc : Document.Admits policy.strict (some c.oid)) (index : Nat) :
    (Embedded.ofElement registry policy index c.toElement).map bare =
      (Embedded.ofValue registry policy index (registry.toDocument c)).map bare := by
  obtain ⟨parsed, hparse, ho, hh, hd⟩ := Registry.parse_toDocument faithful (e := c) trivial hc
  have hn : c.oid ≠ "" := (hc c.oid rfl).1
  simp only [Embedded.ofElement, Control.ofElement_toElement hn, Embedded.ofValue, hparse,
    map_mapError, hd, Embedded.invalid_congr ho hh]

/-- Controls are decoded alike from the elements that they make and from the documents that
they make: to the same controls or to the same failure, with the same notes. The documents
may travel in a request or in a response. -/
theorem embedded_forms_agree (cs : List Control) (policy : DecodePolicy) (notes : List String)
    (h : ∀ c ∈ cs, Document.Admits policy.strict (some c.oid)) :
    let octets := Embedded.decode KnownControl.registry policy notes (Control.listElement cs)
    let documents :=
      (JsonFormatted.ofControls cs).decodeControls KnownControl.registry policy notes
    octets.1.map (List.map KnownControl.bare) = documents.1.map (List.map KnownControl.bare) ∧
      octets.2 = documents.2 := by
  intro octets documents
  have ho : octets = Embedded.decodeItems
      (fun i c ↦ Embedded.ofElement KnownControl.registry policy i c.toElement) 0 notes cs := by
    rw [← Embedded.decodeItems_map]
    rfl
  have hd : documents = Embedded.decodeItems
      (fun i c ↦ Embedded.ofValue KnownControl.registry policy i
        (KnownControl.registry.toDocument c)) 0 notes cs := by
    rw [← Embedded.decodeItems_map]
    rfl
  rw [ho, hd]
  exact Embedded.decodeItems_congr (fun i c hc ↦ KnownControl.ofElement_eq_ofValue (h c hc) i) 0
    notes

/-- Strict documents of a control that is known, of one that should not have its value and of
one that is not known. -/
theorem embedded_forms_agree_mixed :
    let cs : List Control :=
      [⟨"1.3.6.1.4.1.42.2.27.8.5.1", true, some [0x30, 3, 0x81, 1, 1]⟩,
        ⟨"2.16.840.1.113730.3.4.2", true, some []⟩, ⟨"1.2.3", false, some [7]⟩]
    let policy := DecodePolicy.permissive.withStrict true
    let documents :=
      (JsonFormatted.ofControls cs).decodeControls KnownControl.registry policy ["before"]
    (∀ c ∈ cs, Document.Admits policy.strict (some c.oid)) ∧
      documents.1.map (List.map KnownControl.bare) =
        .ok [.passwordPolicy (.new true ⟨none, some .accountLocked⟩),
          .generic ⟨"1.2.3", false, some [7]⟩] ∧
      documents.2 = ["before",
        "Skipped invalid critical embedded control 1 (2.16.840.1.113730.3.4.2): " ++
          "Decoding error: ManageDsaIT Request Control must not have a value"] := by
  intro cs policy documents
  have hc : ∀ c ∈ cs, Document.Admits policy.strict (some c.oid) := by
    simp only [cs, List.forall_mem_cons]
    refine ⟨?_, ?_, ?_, by simp⟩
    all_goals
      rintro _ ⟨⟩
      exact ⟨by decide, fun _ ↦ by decide⟩
  obtain ⟨hr, hn⟩ := embedded_forms_agree cs policy ["before"] hc
  exact ⟨hc, hr.symm.trans rfl, hn.symm.trans (by decide +kernel)⟩

end LdapCodec
