import LdapCodec.Proofs.Decoded
import LdapCodec.Proofs.Document

namespace LdapCodec

open Json
open Envelope (value?)

namespace Document

variable {E H : Type} [Envelope E H] [Documented E]

theorem sound_ofEnvelope {c : Control} {name : Option String} {structured : Option Value} {d : Nat}
    (hs : ∀ v, structured = some v → v.Sound d) : (ofEnvelope c name structured).Sound (d + 1) := by
  have hheader : (headerMembers c name).Sound d :=
    ((Members.Sound.singleton (.bool c.critical)).insertText _ _).insertText _ _
  unfold ofEnvelope
  split
  · exact hheader.object
  · exact (hheader.insert _ (hs _ rfl)).object
  · exact (hheader.insert _ (.string _)).object

theorem depth_lt_ofEnvelope {e : E} (hv : (value? e).isSome) (name : Option String) (v : Value) :
    v.depth < (ofEnvelope e name (some v)).depth := by
  obtain ⟨bytes, hb⟩ := Option.isSome_iff_exists.1 hv
  simp only [ofEnvelope, hb]
  exact Value.depth_lt_depth_object (Members.mem_of_get? (Members.get?_insert_self _ _ _))

end Document

namespace Registry

variable {E H T α : Type} [Envelope E H] {json : T → Option Value}

def Entry.Writes (json : T → Option Value) (entry : Entry E T) : Prop :=
  ∀ e, entry.form.bind (·.write? e) = (entry.decode e).toOption.bind json

theorem Entry.Writes.ofExtension {x : Extension E H α} {wrap : Typed H α → T}
    (hw : ∀ t, json (wrap t) = x.toJson? t) : (Entry.ofExtension x wrap).Writes json := by
  intro e
  have hd : (Entry.ofExtension x wrap).decode e = (x.decode e).map wrap := rfl
  rw [Entry.write?_ofExtension, hd]
  cases x.decode e with
  | error err => rfl
  | ok t => exact (hw t).symm

theorem toJson?_eq {r : Registry E T} (hr : ∀ entry ∈ r.entries, entry.Writes json)
    (hg : ∀ e, json (r.generic e) = none) (e : E) :
    r.toJson? e = (r.decode e).toOption.bind json := by
  unfold toJson? decode
  cases he : r.entry? e with
  | none => exact (hg e).symm
  | some entry => exact hr entry (entry?_eq_some he).1 e

end Registry

theorem PasswordPolicy.sound_members (d : Nat) (x : PasswordPolicy) : ∃ ms : Members,
    structured.write x = some (.object ms) ∧ ms.Sound d := by
  obtain ⟨warning, problem⟩ := x
  have hn : Members.Sound d [] := .nil
  cases warning with
  | none => exact ⟨_, rfl, hn.insertText _ _⟩
  | some w =>
    have hw := (hn.insertText "warning-type" (some w.key)).insert "warning-value"
      (Value.sound_ofInt d w.amount)
    exact ⟨_, rfl, hw.insertText _ _⟩

namespace KnownControl

def toJson? : KnownControl → Option Value
  | excludeBranch t => ExcludeBranch.extension.toJson? t
  | manageDsaIt t => ManageDsaIt.extension.toJson? t
  | passwordPolicy t => PasswordPolicy.extension.toJson? t
  | transactionSpecification t => TransactionSpecification.extension.toJson? t
  | jsonRequest t => JsonFormatted.request.toJson? t
  | jsonResponse t => JsonFormatted.response.toJson? t
  | generic _ => none

def documents : KnownControl → List Value
  | jsonRequest t => t.payload.controls
  | jsonResponse t => t.payload.controls
  | _ => []

theorem registry_toJson?_eq (c : Control) :
    registry.toJson? c = (registry.decode c).toOption.bind toJson? := by
  refine Registry.toJson?_eq ?_ (fun _ ↦ rfl) c
  simp only [registry, List.forall_mem_cons]
  refine ⟨?_, ?_, ?_, ?_, ?_, ?_, by simp⟩
  all_goals exact .ofExtension fun _ ↦ rfl

theorem sound_toJson? {t : KnownControl} {v : Value} {d : Nat} (hd : ∀ x ∈ t.documents, x.Sound d)
    (h : t.toJson? = some v) : v.Sound (d + 2) := by
  cases t with
  | excludeBranch t =>
    obtain rfl := Option.some.inj h
    exact (Members.Sound.singleton (Value.sound_ofTexts d _)).object
  | manageDsaIt t => cases h
  | passwordPolicy t =>
    obtain ⟨ms, hw, hs⟩ := PasswordPolicy.sound_members (d + 1) t.payload
    obtain rfl := Option.some.inj (hw.symm.trans h)
    exact hs.object
  | transactionSpecification t =>
    obtain rfl := Option.some.inj h
    exact (Members.Sound.singleton (.string _)).object
  | jsonRequest t =>
    obtain rfl := Option.some.inj h
    exact (Members.Sound.singleton (.array hd)).object
  | jsonResponse t =>
    obtain rfl := Option.some.inj h
    exact (Members.Sound.singleton (.array hd)).object
  | generic c => cases h

theorem depth_lt_toJson? {t : KnownControl} {x : Value} (hx : x ∈ t.documents) :
    ∃ v, t.toJson? = some v ∧ x.depth + 2 ≤ v.depth := by
  have hv (y : JsonFormatted) (hy : x ∈ y.controls) : x.depth + 2 ≤ y.toValue.depth := by
    have hitems := Value.depthItems_le_iff.1 (Nat.le_refl _) x hy
    rw [JsonFormatted.depth_toValue]
    omega
  cases t with
  | jsonRequest t => exact ⟨_, rfl, hv t.payload hx⟩
  | jsonResponse t => exact ⟨_, rfl, hv t.payload hx⟩
  | _ => cases hx

theorem documents_of_decode {c : Control} {t : KnownControl} (h : registry.decode c = .ok t) :
    ∀ v ∈ t.documents, (value? c).isSome ∧ v.Sound 125 := by
  have hj (oid name : String) (c : Control) (t : Typed Bool JsonFormatted)
      (ht : (JsonFormatted.extension oid name).decode c = .ok t) :
      ∀ v ∈ t.payload.controls, (value? c).isSome ∧ v.Sound 125 := by
    obtain ⟨_, hp, _⟩ := Extension.decode_eq_ok ht
    obtain ⟨bytes, hb, hp⟩ := bind_eq_ok.1 hp
    intro v hv
    refine ⟨?_, JsonFormatted.sound_of_decode hp v hv⟩
    cases hc : value? c with
    | none =>
      rw [hc] at hb
      cases hb
    | some bytes => rfl
  have hr : ∀ entry ∈ registry.entries,
      entry.Gives fun c t ↦ ∀ v ∈ t.documents, (value? c).isSome ∧ v.Sound 125 := by
    simp only [registry, List.forall_mem_cons]
    refine ⟨.ofExtension ?_, .ofExtension ?_, .ofExtension ?_, .ofExtension ?_,
      .ofExtension (hj _ _), .ofExtension (hj _ _), by simp⟩
    all_goals exact fun _ _ _ _ hv ↦ absurd hv List.not_mem_nil
  exact Registry.of_decode hr (fun _ _ hv ↦ absurd hv List.not_mem_nil) h

theorem sound_toDocument {c : Control} {d : Nat}
    (h : ∀ t, registry.decode c = .ok t → ∀ v ∈ t.documents, v.Sound d) :
    (registry.toDocument c).Sound (d + 3) := by
  refine Document.sound_ofEnvelope fun v hv ↦ ?_
  split at hv
  · rw [registry_toJson?_eq] at hv
    obtain ⟨t, ht, hv⟩ := Option.bind_eq_some_iff.1 hv
    exact sound_toJson? (h t (ok_of_toOption ht)) hv
  · cases hv

/-- The documents inside a control, if there are any, leave room for another control around
them. -/
def Wrappable (c : Control) : Prop :=
  ∀ t, registry.decode c = .ok t → ∀ v ∈ t.documents, v.depth ≤ 122

/-- The document of a control is three levels deeper than documents inside the control. -/
theorem depth_toDocument_le_iff (c : Control) :
    (registry.toDocument c).depth ≤ 125 ↔ Wrappable c := by
  constructor
  · intro h t ht v hv
    obtain ⟨hvalue, _⟩ := documents_of_decode ht v hv
    obtain ⟨w, hw, hd⟩ := depth_lt_toJson? hv
    have hj : registry.toJson? c = some w := by
      rw [registry_toJson?_eq, ht]
      exact hw
    have hdocument : w.depth < (registry.toDocument c).depth := by
      simp only [Registry.toDocument, hvalue, if_true, hj]
      exact Document.depth_lt_ofEnvelope hvalue _ w
    omega
  · intro h
    have hs : (registry.toDocument c).Sound (122 + 3) := sound_toDocument fun t ht v hv ↦
      (documents_of_decode ht v hv).2.of_depth_le (h t ht v hv)
    exact hs.depth_le

theorem exact_toDocument {c : Control} (h : ¬(registry.toDocument c).HasDouble) :
    (registry.toDocument c).Exact := by
  have hs : (registry.toDocument c).Sound (125 + 3) :=
    sound_toDocument fun t ht v hv ↦ (documents_of_decode ht v hv).2
  exact hs.exact h

theorem wrappable_iff (cs : List Control) :
    (∀ c ∈ cs, Wrappable c) ↔ Value.depthItems (JsonFormatted.ofControls cs).controls ≤ 125 := by
  simp only [JsonFormatted.ofControls, Value.depthItems_le_iff, List.forall_mem_map,
    depth_toDocument_le_iff]

end KnownControl

namespace JsonFormatted

theorem eq_extension_of_mem {x : Extension Control Bool JsonFormatted}
    (h : x ∈ [request, response]) : ∃ oid name, x = extension oid name := by
  simp only [List.mem_cons, List.not_mem_nil, or_false] at h
  rcases h with rfl | rfl
  · exact ⟨_, _, rfl⟩
  · exact ⟨_, _, rfl⟩

/-- A control that was built of documents can be decoded if they are not nested too deep. -/
theorem decode_toEnvelope_build {controls : List Value} (he : ∀ v ∈ controls, v.Exact)
    (oid name : String) (critical : Bool) :
    (extension oid name).decode ((extension oid name).toEnvelope (build critical controls)) =
      if Value.depthItems controls ≤ 125 then
        .ok ⟨critical, ⟨controls⟩, .of ((extension oid name).encodeValue ⟨controls⟩)⟩
      else .error (.decoding s!"{name} value is not valid JSON: not a JSON text") := by
  rw [build, Extension.decode_toEnvelope_new, decodeValue_encodeValue he]
  split
  · rfl
  · rfl

end JsonFormatted

namespace Json.Value

def nested : Nat → Value
  | 0 => .null
  | levels + 1 => .array [nested levels]

theorem exact_nested (levels : Nat) : (nested levels).Exact := by
  induction levels with
  | zero => exact .null
  | succ levels ih => exact .array (List.forall_mem_singleton.2 ih)

theorem depth_nested (levels : Nat) : (nested levels).depth = levels := by
  induction levels with
  | zero => rfl
  | succ levels ih =>
    rw [nested, depth, depthItems, depthItems, ih]
    omega

theorem not_hasDouble_nested (levels : Nat) : ¬(nested levels).HasDouble := by
  induction levels with
  | zero => exact not_hasDouble_null
  | succ levels ih => simpa [nested, hasDouble_array_iff] using ih

end Json.Value

namespace JsonFormatted

def nestedControl (levels : Nat) : Control := response.toEnvelope (build true [.nested levels])

theorem decode_nestedControl {levels : Nat} (h : levels ≤ 125) :
    ∃ t, KnownControl.registry.decode (nestedControl levels) = .ok (.jsonResponse t) ∧
      t.payload.controls = [.nested levels] := by
  have hm : Registry.Entry.ofExtension response .jsonResponse ∈ KnownControl.registry.entries := by
    simp [KnownControl.registry]
  have hdepth : Value.depthItems [.nested levels] ≤ 125 :=
    Value.depthItems_le_iff.2 (List.forall_mem_singleton.2 ((Value.depth_nested levels).trans_le h))
  have hd : response.decode (nestedControl levels) = _ :=
    decode_toEnvelope_build (List.forall_mem_singleton.2 (Value.exact_nested levels)) _ _ true
  rw [Registry.decode_of_mem hm rfl, hd, if_pos hdepth]
  exact ⟨_, rfl, rfl⟩

theorem not_hasDouble_nestedControl {levels : Nat} (h : levels ≤ 125) :
    ¬(KnownControl.registry.toDocument (nestedControl levels)).HasDouble := by
  obtain ⟨t, ht, hcontrols⟩ := decode_nestedControl h
  have hj : KnownControl.registry.toJson? (nestedControl levels) =
      some (.object [("controls", .array [.nested levels])]) := by
    rw [KnownControl.registry_toJson?_eq, ht, ← hcontrols]
    rfl
  have hd : KnownControl.registry.toDocument (nestedControl levels) = .object
      [("control-name", .string response.name), ("criticality", .bool true),
        ("oid", .string response.oid),
        ("value-json", .object [("controls", .array [.nested levels])])] := by
    simp only [Registry.toDocument, hj]
    rfl
  simp [hd, Value.hasDouble_object_iff, Value.hasDouble_array_iff, Value.not_hasDouble_nested]

end JsonFormatted

open JsonFormatted in
/-- Controls without doubles that are put as documents into another control come out of it
again if there is room for them. Otherwise they are written all the same, and the control
around them cannot be decoded. -/
theorem wrapped_controls_read (cs : List Control) (critical : Bool)
    (hn : ∀ c ∈ cs, ¬(KnownControl.registry.toDocument c).HasDouble) :
    ∀ x ∈ [request, response],
      let t := build critical (ofControls cs).controls
      ((∀ c ∈ cs, KnownControl.Wrappable c) →
        ∃ u, x.decode (x.toEnvelope t) = .ok u ∧ u.Same t) ∧
      ((∃ c ∈ cs, ¬KnownControl.Wrappable c) →
        x.decode (x.toEnvelope t) =
          .error (.decoding s!"{x.name} value is not valid JSON: not a JSON text")) := by
  intro x hx t
  obtain ⟨oid, name, rfl⟩ := eq_extension_of_mem hx
  have he : ∀ v ∈ (ofControls cs).controls, v.Exact := by
    intro v hv
    obtain ⟨c, hc, rfl⟩ := List.mem_map.1 hv
    exact KnownControl.exact_toDocument (hn c hc)
  have hd := decode_toEnvelope_build he oid name critical
  refine ⟨fun hw ↦ ?_, fun ⟨c, hc, hw⟩ ↦ ?_⟩
  · rw [if_pos ((KnownControl.wrappable_iff cs).1 hw)] at hd
    exact ⟨_, hd, rfl, rfl⟩
  · rwa [if_neg fun h ↦ hw ((KnownControl.wrappable_iff cs).2 h c hc)] at hd

open JsonFormatted in
/-- Arrays of 122 levels can be wrapped twice, and arrays of 123 levels only once. -/
theorem wrapped_controls_read_nested :
    let t (levels : Nat) := build false (ofControls [nestedControl levels]).controls
    (∀ c ∈ [nestedControl 122], ¬(KnownControl.registry.toDocument c).HasDouble) ∧
    (∃ u, request.decode (request.toEnvelope (t 122)) = .ok u ∧ u.Same (t 122)) ∧
    (∀ c ∈ [nestedControl 123], ¬(KnownControl.registry.toDocument c).HasDouble) ∧
    (∃ u, KnownControl.registry.decode (nestedControl 123) = .ok (.jsonResponse u)) ∧
    request.decode (request.toEnvelope (t 123)) =
      .error (.decoding
        "JSON-Formatted Request Control value is not valid JSON: not a JSON text") := by
  intro t
  have hn (levels : Nat) (h : levels ≤ 125) :
      ∀ c ∈ [nestedControl levels], ¬(KnownControl.registry.toDocument c).HasDouble :=
    List.forall_mem_singleton.2 (not_hasDouble_nestedControl h)
  have hw (levels : Nat) (h : levels ≤ 125) :
      KnownControl.Wrappable (nestedControl levels) ↔ levels ≤ 122 := by
    obtain ⟨u, hu, hcontrols⟩ := decode_nestedControl h
    simp [KnownControl.Wrappable, hu, KnownControl.documents, hcontrols, Value.depth_nested]
  obtain ⟨u, hu, _⟩ := @decode_nestedControl 123 (by decide)
  have hread := wrapped_controls_read [nestedControl 122] false (hn 122 (by decide)) request
    (by simp)
  have hrefused := wrapped_controls_read [nestedControl 123] false (hn 123 (by decide)) request
    (by simp)
  refine ⟨hn 122 (by decide), hread.1 ?_, hn 123 (by decide), ⟨_, hu⟩, hrefused.2 ?_⟩
  · exact List.forall_mem_singleton.2 ((hw 122 (by decide)).2 (by decide))
  · exact ⟨_, List.mem_singleton_self _, fun h ↦ absurd ((hw 123 (by decide)).1 h) (by decide)⟩

end LdapCodec
