import LdapCodec.Document
import LdapCodec.Proofs.Json.Fields
import LdapCodec.Proofs.Outcome

namespace LdapCodec

open Json
open Envelope (kind oid? value? withValue)

namespace Document

variable {E H : Type} [Envelope E H] [Documented E]

variable (E) in
def headerKeys : List String :=
  oidKey :: Documented.nameKey E :: Documented.ownKeys E

def headerMembers (e : E) (name : Option String) : Members :=
  ((Documented.outline e).insertText oidKey (oid? e)).insertText (Documented.nameKey E) name

/-- A structured value is only written in the place of one in octets. -/
theorem ofEnvelope_of_value?_eq_none {e : E} (hv : value? e = none) (name : Option String)
    (structured : Option Value) : ofEnvelope e name structured = ofEnvelope e name none := by
  simp only [ofEnvelope, hv]

def Admits (strict : Bool) (oid : Option String) : Prop :=
  ∀ o, oid = some o → o ≠ "" ∧ (strict = true → Oid.isValid o = true)

theorem checkOid_eq_ok_iff {oid : Option String} {strict : Bool} {kind : String} :
    checkOid oid strict kind = .ok () ↔ Admits strict oid := by
  cases oid with
  | none => simp [checkOid, Admits]
  | some o =>
    have hp : (within kind (Oid.parse o)).map (fun _ ↦ ()) = .ok () ↔ Oid.isValid o = true := by
      unfold within Oid.isValid
      cases Oid.parse o with
      | error err => exact ⟨(nomatch ·), (nomatch ·)⟩
      | ok arcs => exact ⟨fun _ ↦ rfl, fun _ ↦ rfl⟩
    by_cases ho : o = ""
    · simp [checkOid, Admits, ho]
    · cases strict with
      | false => simp [checkOid, Admits, ho]
      | true => simp [checkOid, Admits, ho, hp]

section

variable {strict : Bool} {ms : Members} {frame : Frame E}

theorem checkOid_lenient (oid : Option String) (kind : String) :
    checkOid oid false kind =
      if oid = some "" then .error (.decoding s!"Empty OID in {kind} document") else .ok () := by
  cases oid with
  | none => rfl
  | some o => simp [checkOid]

theorem parse_untyped
    (h : Documented.frame? (E := E) ms = none ∨ ms.optional Value.asText? octetsKey = none) :
    parse (E := E) strict (.object ms) =
      .error (.decoding s!"Invalid {kind E} document: a key is missing or of the wrong type") := by
  unfold parse
  dsimp only [Value.asMembers?]
  obtain hf | ho := h
  · rw [hf]
  · rw [ho]
    cases Documented.frame? (E := E) ms <;> rfl

theorem parse_unknown {octets : Option String} {key : String}
    (hf : Documented.frame? ms = some frame)
    (ho : ms.optional Value.asText? octetsKey = some octets)
    (hk : ms.unknown? (keys E) = some key) :
    parse (E := E) true (.object ms) =
      .error (.unrecognizedField s!"Unrecognized field '{key}' in {kind E} document") := by
  unfold parse
  simp only [Value.asMembers?, hf, ho, hk]

/-- A document in which every key that is looked at has the right type. -/
theorem parse_framed {octets : Option String} (hf : Documented.frame? ms = some frame)
    (ho : ms.optional Value.asText? octetsKey = some octets)
    (hk : ms.unknown? (keys E) = none ∨ strict = false) :
    parse strict (.object ms) = (do
      checkOid frame.oid strict (kind E)
      match octets with
      | some text =>
        let bytes ← decodeBase64 text (kind E)
        .ok ⟨frame.attach (some bytes), frame.name, none⟩
      | none =>
        .ok ⟨frame.attach none, frame.name,
          (ms.get? structuredKey).filter fun v ↦ !v matches .null⟩) := by
  unfold parse
  simp only [Value.asMembers?, hf, ho]
  generalize ms.unknown? (keys E) = unknown at hk ⊢
  obtain rfl | rfl := hk
  · rfl
  · cases unknown <;> rfl

/-- A document with a value in octets, or without a value. -/
theorem parse_octets (octets : Option Bytes) (hf : Documented.frame? ms = some frame)
    (hk : ms.unknown? (keys E) = none)
    (ho : ms.get? octetsKey = octets.map fun bytes ↦ .string (Base64.encode bytes))
    (hs : ms.get? structuredKey = none) :
    parse strict (.object ms) =
      (checkOid frame.oid strict (kind E)).map fun _ ↦ ⟨frame.attach octets, frame.name, none⟩ := by
  have ht : ms.optional Value.asText? octetsKey = some (octets.map Base64.encode) :=
    Members.optional_text (by rw [ho, Option.map_map]; rfl)
  rw [parse_framed hf ht (.inl hk)]
  cases checkOid frame.oid strict (kind E) with
  | error err => rfl
  | ok checked =>
    cases octets with
    | none => simp [bind, Except.bind, Except.map, hs]
    | some bytes => simp [bind, Except.bind, Except.map, decodeBase64_encode]

theorem parse_structured {members : Members} (hf : Documented.frame? ms = some frame)
    (hk : ms.unknown? (keys E) = none) (ha : Admits strict frame.oid)
    (ho : ms.get? octetsKey = none) (hs : ms.get? structuredKey = some (.object members)) :
    parse strict (.object ms) = .ok ⟨frame.attach none, frame.name, some (.object members)⟩ := by
  rw [parse_framed hf (Members.optional_eq_none _ ho) (.inl hk), checkOid_eq_ok_iff.2 ha, ok_bind,
    hs]
  rfl

end

end Document

open Document

/-- The keys of a kind of documents stand for one thing each. -/
class Documented.Keyed (E : Type) {H : outParam Type} [Envelope E H] [Documented E] : Prop where
  nodup_keys : (keys E).Nodup
  keys_outline : ∀ e : E, ∀ k ∈ (Documented.outline e).keys, k ∈ Documented.ownKeys E

namespace Document

open Documented.Keyed

variable {E H : Type} [Envelope E H] [Documented E] {e : E} {name : Option String} {k : String}

theorem mem_keys_of_mem_headerKeys (h : k ∈ headerKeys E) : k ∈ keys E := by
  simp only [headerKeys, keys, List.mem_cons] at h ⊢
  rcases h with h | h | h
  · exact .inl h
  · exact .inr (.inl h)
  · exact .inr (.inr (.inr (.inr h)))

variable [Documented.Keyed E]

theorem ne_of_mem_headerKeys (h : k ∈ headerKeys E) : k ≠ octetsKey ∧ k ≠ structuredKey := by
  have hn := nodup_keys (E := E)
  simp only [keys, List.nodup_cons, List.mem_cons, not_or] at hn
  simp only [headerKeys, List.mem_cons] at h
  rcases h with rfl | rfl | h
  · exact ⟨hn.1.2.1, hn.1.2.2.1⟩
  · exact ⟨hn.2.1.1, hn.2.1.2.1⟩
  · exact ⟨fun hk ↦ hn.2.2.1.2 (hk ▸ h), fun hk ↦ hn.2.2.2.1 (hk ▸ h)⟩

theorem mem_headerKeys_of_mem_keys (h : k ∈ (headerMembers e name).keys) : k ∈ headerKeys E := by
  rcases Members.of_mem_keys_insertText h with rfl | h
  · simp [headerKeys]
  · rcases Members.of_mem_keys_insertText h with rfl | h
    · simp [headerKeys]
    · simp [headerKeys, keys_outline e k h]

theorem get?_outline_eq_none (h : k ∉ Documented.ownKeys E) :
    (Documented.outline e).get? k = none :=
  Members.get?_eq_none_iff.2 fun hk ↦ h (keys_outline e k hk)

theorem headerKeys_apart :
    oidKey ≠ Documented.nameKey E ∧ oidKey ∉ Documented.ownKeys E ∧
      Documented.nameKey E ∉ Documented.ownKeys E := by
  have hn := nodup_keys (E := E)
  simp only [keys, List.nodup_cons, List.mem_cons, not_or] at hn
  exact ⟨hn.1.1, hn.1.2.2.2, hn.2.1.2.2⟩

theorem get?_headerMembers_oid (e : E) (name : Option String) :
    (headerMembers e name).get? oidKey = (oid? e).map .string := by
  obtain ⟨hn, ho, _⟩ := headerKeys_apart (E := E)
  simp [headerMembers, hn, get?_outline_eq_none ho]

theorem get?_headerMembers_name (e : E) (name : Option String) :
    (headerMembers e name).get? (Documented.nameKey E) = name.map .string := by
  obtain ⟨hn, _, ho⟩ := headerKeys_apart (E := E)
  simp [headerMembers, Ne.symm hn, get?_outline_eq_none ho]

theorem get?_headerMembers_own (e : E) (name : Option String) (h : k ∈ Documented.ownKeys E) :
    (headerMembers e name).get? k = (Documented.outline e).get? k := by
  obtain ⟨_, ho, hn⟩ := headerKeys_apart (E := E)
  have hko : k ≠ oidKey := fun hk ↦ ho (hk ▸ h)
  have hkn : k ≠ Documented.nameKey E := fun hk ↦ hn (hk ▸ h)
  simp [headerMembers, hko, hkn]

theorem get?_headerMembers_value (h : k = octetsKey ∨ k = structuredKey) :
    (headerMembers e name).get? k = none := by
  rw [Members.get?_eq_none_iff]
  intro hk
  obtain ⟨ho, hs⟩ := ne_of_mem_headerKeys (mem_headerKeys_of_mem_keys hk)
  exact h.elim ho hs

theorem unknown?_headerMembers : (headerMembers e name).unknown? (keys E) = none :=
  Members.unknown?_eq_none_iff.2 fun _ h ↦
    mem_keys_of_mem_headerKeys (mem_headerKeys_of_mem_keys h)

/-- The value of a document stands beside its header. -/
theorem unknown?_insert {key : String} (hk : key = octetsKey ∨ key = structuredKey) (v : Value) :
    ((headerMembers e name).insert key v).unknown? (keys E) = none := by
  refine Members.unknown?_insert unknown?_headerMembers ?_ v
  rcases hk with rfl | rfl
  · simp [keys]
  · simp [keys]

end Document

/-- Documents of a kind are read as they are written. `Plain` are the envelopes without
texts that are dropped because they are empty. -/
class Documented.Lawful (E : Type) {H : outParam Type} [Envelope E H] [Documented E] where
  Plain : E → Prop
  withValue_value? : ∀ e : E, withValue e (value? e) = e
  frame?_congr : ∀ ms ms' : Members, (∀ k ∈ headerKeys E, ms.get? k = ms'.get? k) →
    Documented.frame? (E := E) ms = Documented.frame? ms'
  frame?_header : ∀ (e : E) (name : Option String), Plain e →
    Documented.frame? (headerMembers e name) = some ⟨oid? e, name, withValue e⟩

namespace Document

open Documented.Lawful

variable {E H : Type} [Envelope E H] [Documented E] [Documented.Keyed E] [Documented.Lawful E]
  {strict : Bool} {e : E} {name : Option String}

theorem frame?_insert (hp : Plain e) {key : String} (hk : key = octetsKey ∨ key = structuredKey)
    (v : Value) :
    Documented.frame? ((headerMembers e name).insert key v) =
      some ⟨oid? e, name, withValue e⟩ := by
  rw [← frame?_header e name hp]
  refine frame?_congr _ _ fun k h ↦ Members.get?_insert_of_ne ?_ v _
  rintro rfl
  obtain ⟨ho, hs⟩ := ne_of_mem_headerKeys h
  exact hk.elim ho hs

/-- In a document without a structured value only the identifier can be refused. -/
theorem parse_ofEnvelope_eq (hp : Plain e) (strict : Bool) (name : Option String) :
    parse strict (ofEnvelope e name none) =
      (checkOid (oid? e) strict (kind E)).map fun _ ↦ ⟨e, name, none⟩ := by
  have he := withValue_value? e
  cases hv : value? e with
  | none =>
    have hw : ofEnvelope e name none = .object (headerMembers e name) := by
      simp only [ofEnvelope, hv, headerMembers]
    rw [hw, parse_octets none (frame?_header e name hp) unknown?_headerMembers
      (get?_headerMembers_value (.inl rfl)) (get?_headerMembers_value (.inr rfl))]
    simp only [← hv, he]
  | some bytes =>
    let octets := Value.string (Base64.encode bytes)
    have hw : ofEnvelope e name none =
        .object ((headerMembers e name).insert octetsKey octets) := by
      simp only [ofEnvelope, hv, headerMembers, octets]
    have hs : ((headerMembers e name).insert octetsKey octets).get? structuredKey = none := by
      rw [Members.get?_insert_of_ne (by decide), get?_headerMembers_value (.inr rfl)]
    rw [hw, parse_octets (some bytes) (frame?_insert hp (.inl rfl) octets)
      (unknown?_insert (.inl rfl) octets) (Members.get?_insert_self octetsKey octets _) hs]
    simp only [← hv, he]

/-- A document without a structured value is read as the envelope it was written for. -/
theorem parse_ofEnvelope (hp : Plain e) (ha : Admits strict (oid? e)) :
    parse strict (ofEnvelope e name none) = .ok ⟨e, name, none⟩ := by
  rw [parse_ofEnvelope_eq hp, checkOid_eq_ok_iff.2 ha]
  rfl

/-- A structured value takes the place of the octets. -/
theorem parse_ofEnvelope_structured (hp : Plain e) (ha : Admits strict (oid? e))
    (hv : (value? e).isSome) (members : Members) :
    parse strict (ofEnvelope e name (some (.object members))) =
      .ok ⟨withValue e none, name, some (.object members)⟩ := by
  obtain ⟨bytes, hb⟩ := Option.isSome_iff_exists.1 hv
  let ms := (headerMembers e name).insert structuredKey (.object members)
  have hw : ofEnvelope e name (some (.object members)) = .object ms := by
    simp only [ofEnvelope, hb, headerMembers, ms]
  have ho : ms.get? octetsKey = none := by
    rw [Members.get?_insert_of_ne (by decide), get?_headerMembers_value (.inl rfl)]
  rw [hw, parse_structured (frame?_insert hp (.inr rfl) (.object members))
    (unknown?_insert (.inr rfl) _) ha ho (Members.get?_insert_self structuredKey _ _)]

end Document

instance : Documented.Keyed Control where
  nodup_keys := by decide
  keys_outline _ := by simp [Documented.outline, Documented.ownKeys, Members.keys]

instance : Documented.Lawful Control where
  Plain _ := True
  withValue_value? _ := rfl
  frame?_congr ms ms' h := by
    simp only [Documented.frame?, Members.required, Members.optional,
      h oidKey (by decide), h "control-name" (by decide), h "criticality" (by decide)]
  frame?_header c name _ := by
    have ho : (headerMembers c name).required Value.asText? oidKey = some c.oid :=
      Members.required_text (get?_headerMembers_oid c name)
    have hn : (headerMembers c name).optional Value.asText? "control-name" = some name :=
      Members.optional_text (get?_headerMembers_name c name)
    have hc : (headerMembers c name).get? "criticality" = some (.bool c.critical) :=
      get?_headerMembers_own c name (by decide)
    simp only [Documented.frame?, ho, hn, Members.required_eq _ hc, Value.asBool?,
      Option.bind_eq_bind, Option.bind_some]
    rfl

instance : Documented.Keyed ExtendedRequest where
  nodup_keys := by decide
  keys_outline _ := by simp [Documented.outline, Members.keys]

instance : Documented.Lawful ExtendedRequest where
  Plain _ := True
  withValue_value? _ := rfl
  frame?_congr ms ms' h := by
    simp only [Documented.frame?, Members.required, Members.optional,
      h oidKey (by decide), h "request-name" (by decide)]
  frame?_header q name _ := by
    have ho : (headerMembers q name).required Value.asText? oidKey = some q.oid :=
      Members.required_text (get?_headerMembers_oid q name)
    have hn : (headerMembers q name).optional Value.asText? "request-name" = some name :=
      Members.optional_text (get?_headerMembers_name q name)
    simp only [Documented.frame?, ho, hn, Option.bind_eq_bind, Option.bind_some]
    rfl

theorem ExtendedResult.get?_outline (r : ExtendedResult) (k : String) :
    (Documented.outline r).get? k =
      if k = "referral-urls" then
        if r.result.referrals = [] then none else some (.ofTexts r.result.referrals)
      else if k = "diagnostic-message" then r.result.diagnostic.map .string
      else if k = "matched-dn" then r.result.matchedDn.map .string
      else if k = "result-code" then some (.ofInt r.result.code.value.toInt)
      else none := by
  simp only [Documented.outline]
  by_cases hr : r.result.referrals = []
  · rw [if_pos hr, if_pos hr, Members.get?_insertText, Members.get?_insertText, Members.get?,
      Members.get?]
    grind
  · rw [if_neg hr, if_neg hr, Members.get?_insert, Members.get?_insertText,
      Members.get?_insertText, Members.get?, Members.get?]
    grind

instance : Documented.Keyed ExtendedResult where
  nodup_keys := by decide
  keys_outline r k h := by
    have hk : (Documented.outline r).get? k ≠ none := fun hn ↦ Members.get?_eq_none_iff.1 hn h
    rw [r.get?_outline] at hk
    simp only [Documented.ownKeys, List.mem_cons]
    grind

instance : Documented.Lawful ExtendedResult where
  Plain r := r.result.matchedDn ≠ some "" ∧ r.result.diagnostic ≠ some ""
  withValue_value? _ := rfl
  frame?_congr ms ms' h := by
    simp only [Documented.frame?, Members.required, Members.optional, Members.defaulted,
      h oidKey (by decide), h "response-name" (by decide), h "result-code" (by decide),
      h "matched-dn" (by decide), h "diagnostic-message" (by decide),
      h "referral-urls" (by decide)]
  frame?_header r name hp := by
    have hg (k : String) (hk : k ∈ Documented.ownKeys ExtendedResult) :=
      (get?_headerMembers_own r name hk).trans (r.get?_outline k)
    have hc : (headerMembers r name).required Value.asInt32? "result-code" =
        some r.result.code.value :=
      (Members.required_eq _ (hg "result-code" (by decide))).trans (Value.asInt32?_ofInt _)
    have hm := Members.optional_text (hg "matched-dn" (by decide))
    have hd := Members.optional_text (hg "diagnostic-message" (by decide))
    have hr : (headerMembers r name).defaulted Value.asTexts? [] "referral-urls" =
        some r.result.referrals := by
      have hu := hg "referral-urls" (by decide)
      by_cases hn : r.result.referrals = []
      · rw [Members.defaulted_eq_default _ _ (by simpa [hn] using hu), hn]
      · rw [if_pos rfl, if_neg hn] at hu
        rw [Members.defaulted_eq _ _ hu, Value.asTexts?_ofTexts]
    have ho : (headerMembers r name).optional Value.asText? oidKey = some r.oid :=
      Members.optional_text (get?_headerMembers_oid r name)
    have hn : (headerMembers r name).optional Value.asText? "response-name" = some name :=
      Members.optional_text (get?_headerMembers_name r name)
    have hf (text : Option String) (ht : text ≠ some "") : text.filter (· != "") = text := by
      cases text with
      | none => rfl
      | some s => simpa using ht
    simp only [Documented.frame?, hc, hm, hd, hr, ho, hn, Option.bind_eq_bind, Option.bind_some,
      hf _ hp.1, hf _ hp.2]
    rfl

instance : Documented.Keyed IntermediateResponse where
  nodup_keys := by decide
  keys_outline _ := by simp [Documented.outline, Members.keys]

instance : Documented.Lawful IntermediateResponse where
  Plain _ := True
  withValue_value? _ := rfl
  frame?_congr ms ms' h := by
    simp only [Documented.frame?, Members.optional,
      h oidKey (by decide), h "response-name" (by decide)]
  frame?_header r name _ := by
    have ho : (headerMembers r name).optional Value.asText? oidKey = some r.oid :=
      Members.optional_text (get?_headerMembers_oid r name)
    have hn : (headerMembers r name).optional Value.asText? "response-name" = some name :=
      Members.optional_text (get?_headerMembers_name r name)
    simp only [Documented.frame?, ho, hn, Option.bind_eq_bind, Option.bind_some]
    rfl

end LdapCodec
