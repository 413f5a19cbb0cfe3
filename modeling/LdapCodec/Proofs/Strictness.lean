import LdapCodec.Known
import LdapCodec.Proofs.Dispatch
import LdapCodec.Proofs.Document
import LdapCodec.Proofs.Oid
import Mathlib.Data.List.Nodup

namespace LdapCodec

open Json
open Envelope (oid?)

/-- How a strict reader differs from a lenient one: it succeeds with the same if `passes`,
and fails otherwise, for an unknown key or an identifier that is not numeric. -/
structure Tightens {α : Type} (strict lenient : Except DecodeError α) (passes : Prop) : Prop where
  ok_iff : ∀ x, strict = .ok x ↔ lenient = .ok x ∧ passes
  kind : ∀ x e, lenient = .ok x → strict = .error e →
    e.kind = .unrecognizedField ∨ e.kind = .valueOutOfRange

namespace Tightens

variable {α β : Type} {s l : Except DecodeError α} {P Q : Prop}

theorem same (x : Except DecodeError α) : Tightens x x True := by
  refine ⟨by simp, fun a e ha he ↦ ?_⟩
  rw [ha] at he
  cases he

theorem of_error {e e' : DecodeError} (P : Prop) :
    Tightens (.error e : Except DecodeError α) (.error e') P :=
  ⟨by simp, by simp⟩

/-- What the checks are matters only if the lenient reader succeeds. -/
theorem congr (h : Tightens s l P) (hpq : ∀ x, l = .ok x → (P ↔ Q)) : Tightens s l Q := by
  refine ⟨fun x ↦ (h.ok_iff x).trans ?_, h.kind⟩
  exact and_congr_right (hpq x)

theorem refused {e : DecodeError} (l : Except DecodeError α) (hp : ¬P)
    (he : e.kind = .unrecognizedField ∨ e.kind = .valueOutOfRange) :
    Tightens (.error e) l P := by
  refine ⟨by simp [hp], fun _ _ _ h ↦ ?_⟩
  cases h
  exact he

theorem passed (x : Except DecodeError α) (hp : P) : Tightens x x P :=
  (same x).congr fun _ _ ↦ by simp [hp]

theorem bind {f g : α → Except DecodeError β} {Q : α → Prop} (h : Tightens s l P)
    (hf : ∀ a, l = .ok a → Tightens (f a) (g a) (Q a)) :
    Tightens (s >>= f) (l >>= g) (P ∧ ∀ a, l = .ok a → Q a) := by
  constructor
  · intro x
    rw [bind_eq_ok, bind_eq_ok]
    constructor
    · rintro ⟨a, hs, hx⟩
      obtain ⟨hl, hp⟩ := (h.ok_iff a).1 hs
      obtain ⟨hg, hq⟩ := ((hf a hl).ok_iff x).1 hx
      refine ⟨⟨a, hl, hg⟩, hp, fun b hb ↦ ?_⟩
      cases hl.symm.trans hb
      exact hq
    · rintro ⟨⟨a, hl, hg⟩, hp, hq⟩
      exact ⟨a, (h.ok_iff a).2 ⟨hl, hp⟩, ((hf a hl).ok_iff x).2 ⟨hg, hq a hl⟩⟩
  · intro x e hx he
    obtain ⟨a, hl, hg⟩ := bind_eq_ok.1 hx
    cases hs : s with
    | error e' =>
      rw [hs] at he
      cases he
      exact h.kind a _ hl hs
    | ok b =>
      obtain ⟨hb, _⟩ := (h.ok_iff b).1 hs
      cases hl.symm.trans hb
      rw [hs] at he
      exact (hf a hl).kind x e hg he

theorem map (h : Tightens s l P) (f : α → β) : Tightens (s.map f) (l.map f) P := by
  constructor
  · intro x
    rw [map_eq_ok, map_eq_ok]
    constructor
    · rintro ⟨a, hs, rfl⟩
      obtain ⟨hl, hp⟩ := (h.ok_iff a).1 hs
      exact ⟨⟨a, hl, rfl⟩, hp⟩
    · rintro ⟨⟨a, hl, rfl⟩, hp⟩
      exact ⟨a, (h.ok_iff a).2 ⟨hl, hp⟩, rfl⟩
  · intro x e hx he
    obtain ⟨a, hl, _⟩ := map_eq_ok.1 hx
    exact h.kind a e hl (map_eq_error.1 he)

theorem forM {ι : Type} {f g : ι → Except DecodeError Unit} {Q : ι → Prop} {xs : List ι}
    (h : ∀ x ∈ xs, Tightens (f x) (g x) (Q x)) :
    Tightens (xs.forM f) (xs.forM g) (∀ x ∈ xs, Q x) := by
  induction xs with
  | nil => exact (same _).congr fun _ _ ↦ by simp
  | cons x xs ih =>
    obtain ⟨hx, hxs⟩ := List.forall_mem_cons.1 h
    refine (hx.bind fun _ _ ↦ ih hxs).congr fun u hu ↦ ?_
    obtain ⟨a, ha, _⟩ := bind_eq_ok.1 hu
    rw [List.forall_mem_cons]
    exact and_congr_right fun _ ↦ ⟨fun hq ↦ hq a ha, fun hq _ _ ↦ hq⟩

end Tightens

namespace Json

def Value.HasOnly (v : Value) (allowed : List String) : Prop :=
  ∀ ms, v.asMembers? = some ms → ∀ k ∈ ms.keys, k ∈ allowed

theorem checkFields_tightens (v : Value) (allowed : List String) (what : String) :
    Tightens (checkFields v allowed true what) (checkFields v allowed false what)
      (v.HasOnly allowed) := by
  unfold checkFields Value.HasOnly
  cases v.asMembers? with
  | none => exact .of_error _
  | some ms =>
    have hms : (∀ ms', some ms = some ms' → ∀ k ∈ ms'.keys, k ∈ allowed) ↔
        ms.unknown? allowed = none := by
      rw [Members.unknown?_eq_none_iff]
      simp
    rw [hms]
    dsimp only
    cases ms.unknown? allowed with
    | none => exact .passed _ rfl
    | some key => exact .refused _ (by simp) (.inl rfl)

/-- Whether the objects in the lists of an object have no keys but those that are allowed,
where lists are named with the keys for their objects. -/
def Value.ItemsHaveOnly (v : Value) (items : List (String × List String)) : Prop :=
  ∀ key allowed, (key, allowed) ∈ items → ∀ list, v.member? key = some (.array list) →
    ∀ item ∈ list, item.HasOnly allowed

end Json

/-- The keys of the structured values under one identifier: those of the value itself, and
those of the objects in its lists. -/
structure PayloadKeys where
  oid : String
  fields : List String
  items : List (String × List String)

def PayloadKeys.Allows (p : PayloadKeys) (payload : Value) : Prop :=
  payload.HasOnly p.fields ∧ payload.ItemsHaveOnly p.items

class Documented.Named (E : Type) {H : outParam Type} [Envelope E H] [Documented E] : Prop where
  oid_of_frame? : ∀ ms (frame : Frame E), Documented.frame? ms = some frame →
    ms.optional Value.asText? Document.oidKey = some frame.oid
  oid?_attach : ∀ ms (frame : Frame E) value, Documented.frame? ms = some frame →
    oid? (frame.attach value) = frame.oid

namespace Document

variable {E H : Type} [Envelope E H] [Documented E]

variable (E) in
/-- What is asked of strict documents alone. The structured value is looked at only if there
are no octets beside it. -/
structure Conforms (payloads : List PayloadKeys) (document : Value) : Prop where
  keys : document.HasOnly (keys E)
  oid : ∀ oid, document.member? oidKey = some (.string oid) → Oid.isValid oid = true
  payload : ∀ oid payload, document.member? oidKey = some (.string oid) →
    (∀ octets, document.member? octetsKey ≠ some (.string octets)) →
    document.member? structuredKey = some payload →
    ∀ p ∈ payloads, p.oid = oid → p.Allows payload

theorem checkOid_tightens (oid : Option String) (kind : String) :
    Tightens (checkOid oid true kind) (checkOid oid false kind)
      (∀ o, oid = some o → Oid.isValid o = true) := by
  cases oid with
  | none => exact .passed _ (by simp)
  | some o =>
    unfold checkOid
    dsimp only
    split
    · exact .of_error _
    · have hv : (∀ o', some o = some o' → Oid.isValid o' = true) ↔ Oid.isValid o = true := by simp
      rw [hv, Oid.isValid]
      cases hp : Oid.parse o with
      | ok arcs => exact .passed _ rfl
      | error e =>
        have he : e.kind = .valueOutOfRange := Oid.kind_of_parse hp
        exact .refused _ (by simp [Except.isOk, Except.toBool]) (.inr he)

/-- What was read of a document. Its structured value does not count beside octets. -/
theorem parse_eq_ok [Documented.Named E] {strict : Bool} {document : Value} {parsed : Parsed E}
    (h : parse strict document = .ok parsed) :
    ∃ ms octets, document.asMembers? = some ms ∧
      ms.optional Value.asText? oidKey = some (oid? parsed.envelope) ∧
      ms.optional Value.asText? octetsKey = some octets ∧
      parsed.structured =
        if octets = none then (ms.get? structuredKey).filter fun v ↦ !v matches .null
        else none := by
  unfold parse at h
  split at h
  · cases h
  rename_i ms hd
  split at h
  · rename_i frame octets hf ho
    have hoid := Documented.Named.oid_of_frame? ms frame hf
    have hattach (value) := Documented.Named.oid?_attach ms frame value hf
    split at h
    · cases h
    obtain ⟨_, _, h⟩ := bind_eq_ok.1 h
    split at h
    · obtain ⟨bytes, _, h⟩ := bind_eq_ok.1 h
      cases h
      exact ⟨ms, _, hd, by rw [hoid, hattach], ho, rfl⟩
    · cases h
      exact ⟨ms, _, hd, by rw [hoid, hattach], ho, rfl⟩
  · cases h

theorem parse_tightens [Documented.Named E] (document : Value) :
    Tightens (parse (E := E) true document) (parse false document)
      (document.HasOnly (keys E) ∧
        ∀ oid, document.member? oidKey = some (.string oid) → Oid.isValid oid = true) := by
  unfold parse Value.HasOnly Value.member?
  cases hd : document.asMembers? with
  | none => exact .of_error _
  | some ms =>
    dsimp only
    cases hf : Documented.frame? (E := E) ms with
    | none => exact .of_error _
    | some frame =>
      cases ho : ms.optional Value.asText? octetsKey with
      | none => exact .of_error _
      | some octets =>
        dsimp only
        cases hu : ms.unknown? (keys E) with
        | some key =>
          refine .refused _ (fun hp ↦ ?_) (.inl rfl)
          have hn := Members.unknown?_eq_none_iff.2 (hp.1 ms rfl)
          simp [hu] at hn
        | none =>
          have hk : ∀ k ∈ ms.keys, k ∈ keys E := Members.unknown?_eq_none_iff.1 hu
          have hoid := Members.eq_some_iff_of_optional_text
            (Documented.Named.oid_of_frame? ms frame hf)
          refine ((checkOid_tightens frame.oid _).bind fun _ _ ↦ .same _).congr fun _ _ ↦ ?_
          constructor
          · rintro ⟨hv, _⟩
            refine ⟨?_, fun o h ↦ hv o ((hoid o).2 h)⟩
            rintro _ ⟨⟩
            exact hk
          · rintro ⟨_, hv⟩
            exact ⟨fun o h ↦ hv o ((hoid o).1 h), fun _ _ ↦ trivial⟩

/-- The structured value that was read is the one that conformity asks about. -/
theorem payload_iff [Documented.Named E] {strict : Bool} {document : Value} {parsed : Parsed E}
    {payloads : List PayloadKeys} (h : parse strict document = .ok parsed) :
    (∀ v, parsed.structured = some v →
        ∀ p ∈ payloads, oid? parsed.envelope = some p.oid → p.Allows v) ↔
      ∀ oid payload, document.member? oidKey = some (.string oid) →
        (∀ octets, document.member? octetsKey ≠ some (.string octets)) →
        document.member? structuredKey = some payload →
        ∀ p ∈ payloads, p.oid = oid → p.Allows payload := by
  obtain ⟨ms, octets, hd, hoid, hoctets, hs⟩ := parse_eq_ok h
  have hoid := Members.eq_some_iff_of_optional_text hoid
  have hoctets := Members.eq_some_iff_of_optional_text hoctets
  simp only [Value.member?, hd, Option.bind_some]
  constructor
  · rintro hv _ payload ho hn hp p hm rfl
    have hnone : octets = none := Option.eq_none_iff_forall_ne_some.2 fun text ht ↦
      hn text ((hoctets text).1 ht)
    cases payload with
    | null =>
      refine ⟨?_, ?_⟩
      · rintro _ ⟨⟩
      · rintro _ _ _ _ ⟨⟩
    | _ =>
      refine hv _ ?_ p hm ((hoid _).2 ho)
      rw [hs, if_pos hnone, hp]
      rfl
  · intro hp v hv p hm ho
    rw [hs] at hv
    split at hv
    · rename_i hnone
      obtain ⟨hget, _⟩ := Option.filter_eq_some_iff.1 hv
      refine hp _ v ((hoid _).1 ho) (fun text ht ↦ ?_) hget p hm rfl
      rw [← hoctets, hnone] at ht
      cases ht
    · cases hv

theorem parse_bind_tightens [Documented.Named E] {β : Type}
    {f : Bool → Parsed E → Except DecodeError β} {payloads : List PayloadKeys}
    (hf : ∀ parsed, Tightens (f true parsed) (f false parsed)
      (∀ v, parsed.structured = some v →
        ∀ p ∈ payloads, oid? parsed.envelope = some p.oid → p.Allows v)) (document : Value) :
    Tightens (parse true document >>= f true) (parse false document >>= f false)
      (Conforms E payloads document) := by
  refine ((parse_tightens document).bind fun parsed _ ↦ hf parsed).congr fun _ hx ↦ ?_
  obtain ⟨parsed, hp, _⟩ := bind_eq_ok.1 hx
  constructor
  · rintro ⟨⟨hk, ho⟩, hv⟩
    exact ⟨hk, ho, (payload_iff hp).1 (hv parsed hp)⟩
  · rintro ⟨hk, ho, hv⟩
    refine ⟨⟨hk, ho⟩, fun parsed' hp' ↦ ?_⟩
    exact (payload_iff hp').2 hv

end Document

instance : Documented.Named Control where
  oid_of_frame? ms frame h := by
    simp only [Documented.frame?, Option.bind_eq_bind, Option.bind_eq_some_iff] at h
    obtain ⟨oid, ho, _, _, _, _, h⟩ := h
    cases h
    exact Members.optional_of_required_text ho
  oid?_attach ms frame value h := by
    simp only [Documented.frame?, Option.bind_eq_bind, Option.bind_eq_some_iff] at h
    obtain ⟨_, _, _, _, _, _, h⟩ := h
    cases h
    rfl

instance : Documented.Named ExtendedRequest where
  oid_of_frame? ms frame h := by
    simp only [Documented.frame?, Option.bind_eq_bind, Option.bind_eq_some_iff] at h
    obtain ⟨oid, ho, _, _, h⟩ := h
    cases h
    exact Members.optional_of_required_text ho
  oid?_attach ms frame value h := by
    simp only [Documented.frame?, Option.bind_eq_bind, Option.bind_eq_some_iff] at h
    obtain ⟨_, _, _, _, h⟩ := h
    cases h
    rfl

instance : Documented.Named ExtendedResult where
  oid_of_frame? ms frame h := by
    simp only [Documented.frame?, Option.bind_eq_bind, Option.bind_eq_some_iff] at h
    obtain ⟨_, _, _, _, _, _, _, _, oid, ho, _, _, h⟩ := h
    cases h
    exact ho
  oid?_attach ms frame value h := by
    simp only [Documented.frame?, Option.bind_eq_bind, Option.bind_eq_some_iff] at h
    obtain ⟨_, _, _, _, _, _, _, _, _, _, _, _, h⟩ := h
    cases h
    rfl

instance : Documented.Named IntermediateResponse where
  oid_of_frame? ms frame h := by
    simp only [Documented.frame?, Option.bind_eq_bind, Option.bind_eq_some_iff] at h
    obtain ⟨oid, ho, _, _, h⟩ := h
    cases h
    exact ho
  oid?_attach ms frame value h := by
    simp only [Documented.frame?, Option.bind_eq_bind, Option.bind_eq_some_iff] at h
    obtain ⟨_, _, _, _, h⟩ := h
    cases h
    rfl

def Structured.LooksInto {α : Type} (form : Structured α) (items : List (String × List String)) :
    Prop :=
  ∀ ms, Tightens (form.read true ms) (form.read false ms)
    ((Value.object ms).ItemsHaveOnly items)

theorem Structured.LooksInto.of_same {α : Type} {form : Structured α}
    (h : ∀ ms, form.read true ms = form.read false ms) : form.LooksInto [] := by
  intro ms
  rw [h]
  exact .passed _ (by simp [Value.ItemsHaveOnly])

namespace GeneratedPasswords

def items : List (String × List String) := [("generated-passwords", GeneratedPassword.fields)]

theorem checkItems_tightens (ms : Members) :
    Tightens (checkItems true ms) (checkItems false ms)
      ((Value.object ms).ItemsHaveOnly items) := by
  have hitems : (Value.object ms).ItemsHaveOnly items ↔
      ∀ list, ms.get? "generated-passwords" = some (.array list) →
        ∀ item ∈ list, item.HasOnly GeneratedPassword.fields := by
    simp [Value.ItemsHaveOnly, items, Value.member?, Value.asMembers?]
  rw [hitems]
  unfold checkItems
  split
  · rename_i list hlist
    have hl : (∀ list', ms.get? "generated-passwords" = some (.array list') →
        ∀ item ∈ list', item.HasOnly GeneratedPassword.fields) ↔
          ∀ item ∈ list, item.HasOnly GeneratedPassword.fields := by
      simp [hlist]
    rw [hl]
    exact .forM fun item _ ↦ (checkFields_tightens item _ _).map _
  · rename_i hn
    exact .passed _ fun list hlist ↦ absurd hlist (hn list)

theorem structured_looksInto : structured.LooksInto items := by
  intro ms
  refine ((checkItems_tightens ms).bind fun _ _ ↦ .same _).congr fun _ _ ↦ ?_
  exact and_iff_left fun _ _ ↦ trivial

end GeneratedPasswords

theorem Extension.ofJson_tightens {E H α : Type} [Envelope E H] {x : Extension E H α}
    {form : Structured α} {items : List (String × List String)} (hf : x.structured = some form)
    (h : form.LooksInto items) (e : E) (v : Value) :
    Tightens (x.ofJson e v true) (x.ofJson e v false)
      (PayloadKeys.Allows ⟨x.oid, form.fields, items⟩ v) := by
  unfold ofJson
  rw [hf]
  dsimp only
  cases ho : Envelope.checkOid e x.oid x.name with
  | error err => exact .of_error _
  | ok _ =>
    refine ((checkFields_tightens v form.fields x.name).bind fun ms _ ↦
      (h ms).bind fun _ _ ↦ .same _).congr fun _ ht ↦ ?_
    obtain ⟨ms, hms, ht⟩ := bind_eq_ok.1 ht
    obtain ⟨payload, _, _⟩ := bind_eq_ok.1 ht
    obtain rfl := eq_object_of_checkFields hms
    exact and_congr_right fun _ ↦ ⟨fun hq ↦ (hq ms hms).1, fun hq ms' hms' ↦ by
      cases hms.symm.trans hms'
      exact ⟨hq, fun _ _ ↦ trivial⟩⟩

theorem Extension.ofJson_of_none {E H α : Type} [Envelope E H] {x : Extension E H α}
    (hf : x.structured = none) (P : Prop) (e : E) (v : Value) :
    Tightens (x.ofJson e v true) (x.ofJson e v false) P := by
  unfold ofJson
  rw [hf]
  exact .of_error _

namespace Registry

variable {E H T α : Type} [Envelope E H]

/-- An entry whose strict readers ask of a structured value what is asked of it by those
`payloads` that are for the identifier of the entry. -/
def Entry.Asks (payloads : List PayloadKeys) (entry : Entry E T) : Prop :=
  ∀ form e v, entry.form = some form →
    Tightens (form.decode e v true) (form.decode e v false)
      (∀ p ∈ payloads, p.oid = entry.oid → p.Allows v) ∧
    Tightens (form.rebuild e v true) (form.rebuild e v false)
      (∀ p ∈ payloads, p.oid = entry.oid → p.Allows v)

variable {x : Extension E H α} {wrap : Typed H α → T} {payloads : List PayloadKeys}

theorem Entry.Asks.of_tightens (h : ∀ e v, Tightens (x.ofJson e v true) (x.ofJson e v false)
    (∀ p ∈ payloads, p.oid = x.oid → p.Allows v)) :
    (Entry.ofExtension x wrap).Asks payloads := by
  rintro _ e v ⟨⟩
  exact ⟨(h e v).map wrap, (h e v).map x.toEnvelope⟩

theorem Entry.Asks.ofExtension {form : Structured α} {items : List (String × List String)}
    (hd : (payloads.map PayloadKeys.oid).Nodup) (hf : x.structured = some form)
    (hl : form.LooksInto items) (hm : ⟨x.oid, form.fields, items⟩ ∈ payloads) :
    (Entry.ofExtension x wrap).Asks payloads := by
  refine .of_tightens fun e v ↦ (Extension.ofJson_tightens hf hl e v).congr fun _ _ ↦ ?_
  constructor
  · intro ha p hp ho
    rw [List.inj_on_of_nodup_map hd hp hm ho]
    exact ha
  · intro ha
    exact ha _ hm rfl

/-- There is nothing to ask where no structured value is read. -/
theorem Entry.Asks.of_none (hf : x.structured = none) :
    (Entry.ofExtension x wrap).Asks payloads :=
  .of_tightens fun e v ↦ Extension.ofJson_of_none hf _ e v

variable {r : Registry E T}

theorem ofForm_tightens {β : Type} {read : Form E T → E → Value → Bool → Except DecodeError β}
    (hr : ∀ entry ∈ r.entries, ∀ form e v, entry.form = some form →
      Tightens (read form e v true) (read form e v false)
        (∀ p ∈ payloads, p.oid = entry.oid → p.Allows v)) (e : E) (v : Value) :
    Tightens (do read (← r.form? e) e v true) (do read (← r.form? e) e v false)
      (∀ p ∈ payloads, oid? e = some p.oid → p.Allows v) := by
  cases hf : r.form? e with
  | error err => exact .of_error _
  | ok form =>
    obtain ⟨entry, he, hef⟩ := form?_eq_ok hf
    obtain ⟨hm, ho⟩ := entry?_eq_some he
    rw [ok_bind, ok_bind, ho]
    simp only [Option.some.injEq, eq_comm (a := entry.oid)]
    exact hr entry hm form e v hef

variable [Documented E] [Documented.Named E]

theorem ofDocument_tightens (hr : ∀ entry ∈ r.entries, entry.Asks payloads)
    (document : Value) :
    Tightens (r.ofDocument true document) (r.ofDocument false document)
      (Document.Conforms E payloads document) := by
  refine Document.parse_bind_tightens (f := r.ofParsed) (fun parsed ↦ ?_) document
  unfold ofParsed
  cases parsed.structured with
  | none => exact .passed _ (by simp)
  | some v =>
    have hj : Tightens (r.ofJson parsed.envelope v true)
        (r.ofJson parsed.envelope v false) _ :=
      ofForm_tightens (fun entry hm form e v hf ↦ (hr entry hm form e v hf).1) parsed.envelope v
    exact hj.congr fun _ _ ↦ by simp

def envelopeOfParsed (r : Registry E T) (strict : Bool) (parsed : Parsed E) :
    Except DecodeError E :=
  match parsed.structured with
  | some v => r.rebuild parsed.envelope v strict
  | none => .ok parsed.envelope

theorem envelopeOfDocument_tightens (hr : ∀ entry ∈ r.entries, entry.Asks payloads)
    (document : Value) :
    Tightens (r.envelopeOfDocument true document) (r.envelopeOfDocument false document)
      (Document.Conforms E payloads document) := by
  refine Document.parse_bind_tightens (f := r.envelopeOfParsed) (fun parsed ↦ ?_) document
  unfold envelopeOfParsed
  cases parsed.structured with
  | none => exact .passed _ (by simp)
  | some v =>
    have hj : Tightens (r.rebuild parsed.envelope v true)
        (r.rebuild parsed.envelope v false) _ :=
      ofForm_tightens (fun entry hm form e v hf ↦ (hr entry hm form e v hf).2) parsed.envelope v
    exact hj.congr fun _ _ ↦ by simp

end Registry

namespace KnownControl

def payloads : List PayloadKeys :=
  [⟨ExcludeBranch.extension.oid, ExcludeBranch.structured.fields, []⟩,
    ⟨PasswordPolicy.extension.oid, PasswordPolicy.structured.fields, []⟩,
    ⟨TransactionSpecification.extension.oid, TransactionSpecification.structured.fields, []⟩,
    ⟨JsonFormatted.request.oid, JsonFormatted.fields, []⟩,
    ⟨JsonFormatted.response.oid, JsonFormatted.fields, []⟩]

theorem asks : ∀ entry ∈ registry.entries, entry.Asks payloads := by
  have hd : (payloads.map PayloadKeys.oid).Nodup := by decide
  simp only [registry, List.forall_mem_cons]
  exact ⟨.ofExtension hd rfl (.of_same fun _ ↦ rfl) (by simp [payloads]), .of_none rfl,
    .ofExtension hd rfl (.of_same fun _ ↦ rfl) (by simp [payloads]),
    .ofExtension hd rfl (.of_same fun _ ↦ rfl) (by simp [payloads]),
    .ofExtension hd rfl (.of_same fun _ ↦ rfl) (by simp [payloads]),
    .ofExtension hd rfl (.of_same fun _ ↦ rfl) (by simp [payloads]), by simp⟩

end KnownControl

namespace KnownRequest

def payloads : List PayloadKeys :=
  [⟨GeneratePassword.extension.oid, GeneratePassword.structured.fields, []⟩,
    ⟨BackupQuery.extension.oid, BackupQuery.structured.fields, []⟩,
    ⟨EndTransaction.extension.oid, EndTransaction.structured.fields, []⟩]

theorem asks : ∀ entry ∈ registry.entries, entry.Asks payloads := by
  have hd : (payloads.map PayloadKeys.oid).Nodup := by decide
  simp only [registry, List.forall_mem_cons]
  exact ⟨.ofExtension hd rfl (.of_same fun _ ↦ rfl) (by simp [payloads]),
    .ofExtension hd rfl (.of_same fun _ ↦ rfl) (by simp [payloads]), .of_none rfl,
    .ofExtension hd rfl (.of_same fun _ ↦ rfl) (by simp [payloads]), by simp⟩

end KnownRequest

namespace KnownResult

def payloads : List PayloadKeys :=
  [⟨GeneratedPasswords.extension.oid, GeneratedPasswords.structured.fields,
      GeneratedPasswords.items⟩,
    ⟨BackupDescriptor.extension.oid, BackupDescriptor.structured.fields, []⟩]

theorem asks : ∀ entry ∈ registry.entries, entry.Asks payloads := by
  have hd : (payloads.map PayloadKeys.oid).Nodup := by decide
  simp only [registry, List.forall_mem_cons]
  exact ⟨.ofExtension hd rfl GeneratedPasswords.structured_looksInto (by simp [payloads]),
    .ofExtension hd rfl (.of_same fun _ ↦ rfl) (by simp [payloads]), by simp⟩

end KnownResult

namespace KnownIntermediate

def payloads : List PayloadKeys :=
  [⟨MissingChangelog.extension.oid, MissingChangelog.structured.fields, []⟩]

theorem asks : ∀ entry ∈ registry.entries, entry.Asks payloads := by
  have hd : (payloads.map PayloadKeys.oid).Nodup := by decide
  simp only [registry, List.forall_mem_cons]
  exact ⟨.ofExtension hd rfl (.of_same fun _ ↦ rfl) (by simp [payloads]), by simp⟩

end KnownIntermediate

/-- A strict reader of documents is the lenient one with checks of its own: of the keys of
the document and of the objects inside its structured value, and of the identifier. Where
these pass it reads the same, and where only they fail it says so. -/
theorem strict_documents_checked (document : Value) :
    (Tightens (KnownControl.registry.ofDocument true document)
        (KnownControl.registry.ofDocument false document)
        (Document.Conforms Control KnownControl.payloads document) ∧
      Tightens (KnownControl.registry.envelopeOfDocument true document)
        (KnownControl.registry.envelopeOfDocument false document)
        (Document.Conforms Control KnownControl.payloads document)) ∧
    (Tightens (KnownRequest.registry.ofDocument true document)
        (KnownRequest.registry.ofDocument false document)
        (Document.Conforms ExtendedRequest KnownRequest.payloads document) ∧
      Tightens (KnownRequest.registry.envelopeOfDocument true document)
        (KnownRequest.registry.envelopeOfDocument false document)
        (Document.Conforms ExtendedRequest KnownRequest.payloads document)) ∧
    (Tightens (KnownResult.registry.ofDocument true document)
        (KnownResult.registry.ofDocument false document)
        (Document.Conforms ExtendedResult KnownResult.payloads document) ∧
      Tightens (KnownResult.registry.envelopeOfDocument true document)
        (KnownResult.registry.envelopeOfDocument false document)
        (Document.Conforms ExtendedResult KnownResult.payloads document)) ∧
    (Tightens (KnownIntermediate.registry.ofDocument true document)
        (KnownIntermediate.registry.ofDocument false document)
        (Document.Conforms IntermediateResponse KnownIntermediate.payloads document) ∧
      Tightens (KnownIntermediate.registry.envelopeOfDocument true document)
        (KnownIntermediate.registry.envelopeOfDocument false document)
        (Document.Conforms IntermediateResponse KnownIntermediate.payloads document)) :=
  ⟨⟨Registry.ofDocument_tightens KnownControl.asks document,
      Registry.envelopeOfDocument_tightens KnownControl.asks document⟩,
    ⟨Registry.ofDocument_tightens KnownRequest.asks document,
      Registry.envelopeOfDocument_tightens KnownRequest.asks document⟩,
    ⟨Registry.ofDocument_tightens KnownResult.asks document,
      Registry.envelopeOfDocument_tightens KnownResult.asks document⟩,
    ⟨Registry.ofDocument_tightens KnownIntermediate.asks document,
      Registry.envelopeOfDocument_tightens KnownIntermediate.asks document⟩⟩

end LdapCodec
