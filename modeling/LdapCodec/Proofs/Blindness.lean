import LdapCodec.Proofs.Strictness

namespace LdapCodec

open Json
open Envelope (kind oid?)

namespace Json

def Members.AgreeOn (keys : List String) (ms ms' : Members) : Prop :=
  ∀ k ∈ keys, ms.get? k = ms'.get? k

/-- Values that differ in the unknown members of an object only. -/
inductive Value.Alike (keys : List String) : Value → Value → Prop
  | same (v : Value) : Alike keys v v
  | object {ms ms' : Members} (h : ms.AgreeOn keys ms') : Alike keys (.object ms) (.object ms')

inductive Value.ListsAlike (keys : List String) : Option Value → Option Value → Prop
  | same (v : Option Value) : ListsAlike keys v v
  | array {xs ys : List Value} (h : List.Forall₂ (Alike keys) xs ys) :
    ListsAlike keys (some (.array xs)) (some (.array ys))

section

variable {α : Type} {keys : List String} {k : String} {ms ms' : Members}

namespace Members.AgreeOn

theorem required (h : ms.AgreeOn keys ms') (hk : k ∈ keys) (read : Value → Option α) :
    ms.required read k = ms'.required read k := by
  rw [Members.required, h k hk, ← Members.required]

theorem optional (h : ms.AgreeOn keys ms') (hk : k ∈ keys) (read : Value → Option α) :
    ms.optional read k = ms'.optional read k := by
  rw [Members.optional, h k hk, ← Members.optional]

theorem defaulted (h : ms.AgreeOn keys ms') (hk : k ∈ keys) (read : Value → Option α)
    (default : α) : ms.defaulted read default k = ms'.defaulted read default k := by
  rw [Members.defaulted, h k hk, ← Members.defaulted]

end Members.AgreeOn

theorem checkFields_object_lenient (ms : Members) (allowed : List String) (what : String) :
    checkFields (.object ms) allowed false what = .ok ms := by
  unfold checkFields
  dsimp only [Value.asMembers?]
  split <;> rfl

theorem Value.Alike.checkFields {v v' : Value} (h : v.Alike keys v') (allowed : List String)
    (what : String) :
    (checkFields v allowed false what).map (fun _ ↦ ()) =
      (checkFields v' allowed false what).map fun _ ↦ () := by
  cases h with
  | same => rfl
  | object => simp only [checkFields_object_lenient, Except.map]

end

end Json

/-- Structured values that differ in unknown members only: in their own, or in those of the
objects in their lists. -/
structure PayloadKeys.Alike (p : PayloadKeys) (fs fs' : Members) : Prop where
  fields : ∀ k ∈ p.fields, k ∉ p.items.map Prod.fst → fs.get? k = fs'.get? k
  items : ∀ key allowed, (key, allowed) ∈ p.items →
    Value.ListsAlike allowed (fs.get? key) (fs'.get? key)

/-- Documents that differ in unknown members only: in their own, or in those of a structured
value under their identifier. -/
structure Document.Alike (E : Type) {H : Type} [Envelope E H] [Documented E]
    (payloads : List PayloadKeys) (ms ms' : Members) : Prop where
  header : ms.AgreeOn ((keys E).filter (· ≠ structuredKey)) ms'
  payload : ms.get? structuredKey = ms'.get? structuredKey ∨
    ∃ fs fs', ms.get? structuredKey = some (.object fs) ∧
      ms'.get? structuredKey = some (.object fs') ∧
      ∀ p ∈ payloads, ms.get? oidKey = some (.string p.oid) → p.Alike fs fs'

/-- What lenient readers of documents do not see, and what no reader sees beside a value in
octets. -/
structure Registry.Blind {E H T : Type} [Envelope E H] [Documented E] (r : Registry E T)
    (payloads : List PayloadKeys) : Prop where
  unknown : ∀ ms ms' : Members, Document.Alike E payloads ms ms' →
    r.ofDocument false (.object ms) = r.ofDocument false (.object ms') ∧
    r.envelopeOfDocument false (.object ms) = r.envelopeOfDocument false (.object ms')
  hidden : ∀ (strict : Bool) (ms ms' : Members) (text : String), ms.Ordered → ms'.Ordered →
    ms.get? Document.octetsKey = some (.string text) →
    (∀ k, k ≠ Document.structuredKey → ms.get? k = ms'.get? k) →
    r.ofDocument strict (.object ms) = r.ofDocument strict (.object ms') ∧
    r.envelopeOfDocument strict (.object ms) = r.envelopeOfDocument strict (.object ms')

def Structured.Blind {α : Type} (form : Structured α) (items : List (String × List String)) :
    Prop :=
  ∀ oid ms ms', PayloadKeys.Alike ⟨oid, form.fields, items⟩ ms ms' →
    form.read false ms = form.read false ms'

theorem Structured.Blind.of_fields {α : Type} {form : Structured α}
    (h : ∀ ms ms', ms.AgreeOn form.fields ms' → form.read false ms = form.read false ms') :
    form.Blind [] := fun _ ms ms' ha ↦ h ms ms' fun k hk ↦ ha.fields k hk (by simp)

theorem ExcludeBranch.structured_blind : structured.Blind [] := .of_fields fun ms ms' h ↦ by
  simp only [structured] at h ⊢
  rw [h.required (by decide)]

theorem TransactionSpecification.structured_blind : structured.Blind [] :=
  .of_fields fun ms ms' h ↦ by
    simp only [structured] at h ⊢
    rw [h.required (by decide)]

theorem BackupQuery.structured_blind : structured.Blind [] := .of_fields fun ms ms' h ↦ by
  simp only [structured] at h ⊢
  rw [h.required (by decide)]

theorem MissingChangelog.structured_blind : structured.Blind [] := .of_fields fun ms ms' h ↦ by
  simp only [structured] at h ⊢
  rw [h.optional (by decide)]

theorem EndTransaction.structured_blind : structured.Blind [] := .of_fields fun ms ms' h ↦ by
  simp only [structured] at h ⊢
  rw [h.required (by decide), h.defaulted (by decide)]

theorem BackupDescriptor.structured_blind : structured.Blind [] := .of_fields fun ms ms' h ↦ by
  simp only [structured] at h ⊢
  rw [h.required (by decide), h.defaulted (by decide)]

theorem PasswordPolicy.structured_blind : structured.Blind [] := .of_fields fun ms ms' h ↦ by
  simp only [structured] at h ⊢
  rw [h.optional (k := "warning-type") (by decide), h.optional (k := "warning-value") (by decide),
    h.optional (k := "error-type") (by decide)]

theorem GeneratePassword.structured_blind : structured.Blind [] := .of_fields fun ms ms' h ↦ by
  simp only [structured] at h ⊢
  rw [h.optional (k := "password-policy-dn") (by decide),
    h.optional (k := "target-entry-dn") (by decide),
    h.optional (k := "number-of-passwords") (by decide),
    h.optional (k := "number-of-validation-attempts") (by decide)]

theorem JsonFormatted.structured_blind (name : String) :
    Structured.Blind
      ⟨fields, fun x ↦ some x.toValue, fun _ ms ↦ ofMembers name ms⟩ [] :=
  .of_fields fun ms ms' h ↦ by
    simp only [ofMembers] at h ⊢
    rw [h.required (by decide)]

theorem GeneratedPassword.ofValue?_alike {v v' : Value} (h : v.Alike fields v') :
    ofValue? v = ofValue? v' := by
  cases h with
  | same => rfl
  | object h =>
    simp only [ofValue?, Value.asMembers?, Option.bind_eq_bind, Option.bind_some]
    rw [h.required (k := "password") (by decide),
      h.required (k := "validation-attempted") (by decide), h.defaulted (by decide)]

theorem GeneratedPassword.mapM_ofValue?_alike {xs ys : List Value}
    (h : List.Forall₂ (Value.Alike fields) xs ys) : xs.mapM ofValue? = ys.mapM ofValue? := by
  induction h with
  | nil => rfl
  | cons hx _ ih => rw [List.mapM_cons, List.mapM_cons, ofValue?_alike hx, ih]

namespace GeneratedPasswords

theorem forM_checkFields_alike {xs ys : List Value}
    (h : List.Forall₂ (Value.Alike GeneratedPassword.fields) xs ys) :
    (xs.forM fun item ↦
      (checkFields item GeneratedPassword.fields false GeneratedPassword.what).map
        fun _ ↦ ()) =
      ys.forM fun item ↦
        (checkFields item GeneratedPassword.fields false GeneratedPassword.what).map
          fun _ ↦ () := by
  induction h with
  | nil => rfl
  | cons hx _ ih =>
    simp only [List.forM_eq_forM, List.forM_cons] at ih ⊢
    rw [hx.checkFields, ih]

theorem structured_blind : structured.Blind items := by
  intro oid ms ms' h
  have hdn : ms.get? "password-policy-dn" = ms'.get? "password-policy-dn" :=
    h.fields _ (by simp [structured]) (by simp [items])
  have hlist := h.items "generated-passwords" GeneratedPassword.fields (by simp [items])
  simp only [structured, checkItems, Members.required, hdn]
  generalize ms.get? "generated-passwords" = o at hlist ⊢
  generalize ms'.get? "generated-passwords" = o' at hlist ⊢
  cases hlist with
  | same => rfl
  | array hxs =>
    simp only [forM_checkFields_alike hxs, Option.bind_some, Value.asItems?, orInvalid, ok_bind,
      GeneratedPassword.mapM_ofValue?_alike hxs]

end GeneratedPasswords

theorem Extension.ofJson_blind {E H α : Type} [Envelope E H] {x : Extension E H α}
    {form : Structured α} {items : List (String × List String)} (hf : x.structured = some form)
    (hb : form.Blind items) {fs fs' : Members}
    (h : PayloadKeys.Alike ⟨x.oid, form.fields, items⟩ fs fs') (e : E) :
    x.ofJson e (.object fs) false = x.ofJson e (.object fs') false := by
  simp only [ofJson, hf, checkFields_object_lenient, ok_bind, hb _ _ _ h]

theorem Extension.ofJson_of_structured_none {E H α : Type} [Envelope E H] {x : Extension E H α}
    (hf : x.structured = none) (e : E) (v v' : Value) (strict : Bool) :
    x.ofJson e v strict = x.ofJson e v' strict := by
  simp only [ofJson, hf]

namespace Registry

variable {E H T α : Type} [Envelope E H]

/-- An entry whose lenient readers do not tell structured values apart that those `payloads`
that are for its identifier do not tell apart. -/
def Entry.Blind (payloads : List PayloadKeys) (entry : Entry E T) : Prop :=
  ∀ form, entry.form = some form → ∀ fs fs' : Members,
    (∀ p ∈ payloads, p.oid = entry.oid → p.Alike fs fs') → ∀ e,
      form.decode e (.object fs) false = form.decode e (.object fs') false ∧
      form.rebuild e (.object fs) false = form.rebuild e (.object fs') false

variable {x : Extension E H α} {wrap : Typed H α → T} {payloads : List PayloadKeys}

theorem Entry.Blind.ofExtension {form : Structured α} {items : List (String × List String)}
    (hf : x.structured = some form) (hb : form.Blind items)
    (hm : ⟨x.oid, form.fields, items⟩ ∈ payloads) : (Entry.ofExtension x wrap).Blind payloads := by
  rintro _ ⟨⟩ fs fs' h e
  have hx := Extension.ofJson_blind hf hb (h _ hm rfl) e
  simp only [hx, and_self]

theorem Entry.Blind.of_none (hf : x.structured = none) :
    (Entry.ofExtension x wrap).Blind payloads := by
  rintro _ ⟨⟩ fs fs' _ e
  have hx := Extension.ofJson_of_structured_none hf e (.object fs) (.object fs') false
  simp only [hx, and_self]

theorem form?_blind {β : Type} {r : Registry E T}
    {read : Form E T → E → Value → Bool → Except DecodeError β} {e : E}
    {fs fs' : Members}
    (hr : ∀ entry ∈ r.entries, oid? e = some entry.oid → ∀ form, entry.form = some form →
      read form e (.object fs) false = read form e (.object fs') false) :
    (do read (← r.form? e) e (.object fs) false) =
      (do read (← r.form? e) e (.object fs') false) := by
  cases hf : r.form? e with
  | error err => rfl
  | ok form =>
    obtain ⟨entry, he, hef⟩ := form?_eq_ok hf
    obtain ⟨hm, ho⟩ := entry?_eq_some he
    exact hr entry hm ho form hef

end Registry

namespace Document

variable {E H β : Type} [Envelope E H] [Documented E] [Documented.Keyed E]
  [Documented.Lawful E] {payloads : List PayloadKeys} {ms ms' : Members}
  {f : Parsed E → Except DecodeError β}

theorem Alike.frame? (h : Alike E payloads ms ms') :
    Documented.frame? (E := E) ms = Documented.frame? ms' := by
  refine Documented.Lawful.frame?_congr ms ms' fun k hk ↦ h.header k ?_
  rw [List.mem_filter]
  exact ⟨mem_keys_of_mem_headerKeys hk, decide_eq_true (ne_of_mem_headerKeys hk).2⟩

theorem parse_alike [Documented.Named E] (h : Alike E payloads ms ms')
    (hf : ∀ envelope name fs fs',
      (∀ p ∈ payloads, oid? envelope = some p.oid → p.Alike fs fs') →
      f ⟨envelope, name, some (.object fs)⟩ = f ⟨envelope, name, some (.object fs')⟩) :
    parse false (.object ms) >>= f = parse false (.object ms') >>= f := by
  have ho : ms.optional Value.asText? octetsKey = ms'.optional Value.asText? octetsKey :=
    h.header.optional (by simp [keys, octetsKey, structuredKey]) _
  cases hframe : Documented.frame? (E := E) ms with
  | none => rw [parse_untyped (.inl hframe), parse_untyped (.inl (h.frame?.symm.trans hframe))]
  | some frame =>
    cases hoctets : ms.optional Value.asText? octetsKey with
    | none => rw [parse_untyped (.inr hoctets), parse_untyped (.inr (ho.symm.trans hoctets))]
    | some octets =>
      rw [parse_framed hframe hoctets (.inr rfl),
        parse_framed (h.frame?.symm.trans hframe) (ho.symm.trans hoctets) (.inr rfl)]
      cases checkOid frame.oid false (kind E) with
      | error err => rfl
      | ok _ =>
        cases octets with
        | some text => rfl
        | none =>
          simp only [ok_bind]
          obtain hp | ⟨fs, fs', hs, hs', hp⟩ := h.payload
          · rw [hp]
          · rw [hs, hs']
            refine hf _ _ fs fs' fun p hm hoid ↦ hp p hm ?_
            rw [Documented.Named.oid?_attach ms frame none hframe] at hoid
            have hname := Documented.Named.oid_of_frame? ms frame hframe
            exact (Members.eq_some_iff_of_optional_text hname p.oid).1 hoid

/-- A structured value beside octets is not even looked at. -/
theorem parse_hidden (strict : Bool) {text : String} (hms : ms.Ordered) (hms' : ms'.Ordered)
    (ho : ms.get? octetsKey = some (.string text))
    (h : ∀ k, k ≠ structuredKey → ms.get? k = ms'.get? k) :
    parse (E := E) strict (.object ms) = parse strict (.object ms') := by
  have hframe' : Documented.frame? (E := E) ms = Documented.frame? ms' :=
    Documented.Lawful.frame?_congr ms ms' fun k hk ↦ h k (ne_of_mem_headerKeys hk).2
  have hoctets : ms.optional Value.asText? octetsKey = some (some text) :=
    Members.optional_eq _ ho (by simp)
  have hoctets' : ms'.optional Value.asText? octetsKey = some (some text) :=
    Members.optional_eq _ ((h octetsKey (by decide)).symm.trans ho) (by simp)
  have hunknown : ms.unknown? (keys E) = ms'.unknown? (keys E) := by
    refine hms.unknown?_congr hms' fun k hk ↦ h k ?_
    rintro rfl
    exact hk (by simp [keys])
  cases hframe : Documented.frame? (E := E) ms with
  | none => rw [parse_untyped (.inl hframe), parse_untyped (.inl (hframe'.symm.trans hframe))]
  | some frame =>
    by_cases hk : ms.unknown? (keys E) = none ∨ strict = false
    · have hk' : ms'.unknown? (keys E) = none ∨ strict = false := hk.imp_left hunknown.symm.trans
      rw [parse_framed hframe hoctets hk, parse_framed (hframe'.symm.trans hframe) hoctets' hk']
    · obtain ⟨hn, hs⟩ := not_or.1 hk
      obtain rfl : strict = true := by simpa using hs
      obtain ⟨key, hkey⟩ := Option.ne_none_iff_exists'.1 hn
      rw [parse_unknown hframe hoctets hkey,
        parse_unknown (hframe'.symm.trans hframe) hoctets' (hunknown.symm.trans hkey)]

end Document

namespace Registry

variable {E H T : Type} [Envelope E H] [Documented E] [Documented.Keyed E]
  [Documented.Lawful E] [Documented.Named E] {r : Registry E T} {payloads : List PayloadKeys}

theorem Blind.of_entries (hr : ∀ entry ∈ r.entries, entry.Blind payloads) : r.Blind payloads where
  unknown ms ms' h := by
    have hpayloads {e : E} {fs fs' : Members}
        (hp : ∀ p ∈ payloads, oid? e = some p.oid → p.Alike fs fs') {entry : Entry E T}
        (ho : oid? e = some entry.oid) :
        ∀ p ∈ payloads, p.oid = entry.oid → p.Alike fs fs' :=
      fun p hm hpo ↦ hp p hm (by rw [ho, hpo])
    constructor
    · refine Document.parse_alike (f := r.ofParsed false) h fun e name fs fs' hp ↦ ?_
      exact form?_blind fun entry hm ho form hf ↦
        (hr entry hm form hf fs fs' (hpayloads hp ho) e).1
    · refine Document.parse_alike (f := r.envelopeOfParsed false) h fun e name fs fs' hp ↦ ?_
      exact form?_blind fun entry hm ho form hf ↦
        (hr entry hm form hf fs fs' (hpayloads hp ho) e).2
  hidden strict ms ms' text hms hms' ho h := by
    have hparse := Document.parse_hidden (E := E) strict hms hms' ho h
    constructor
    · rw [ofDocument, ofDocument, hparse]
    · rw [envelopeOfDocument, envelopeOfDocument, hparse]

end Registry

theorem KnownControl.blind : registry.Blind payloads := by
  refine .of_entries ?_
  simp only [registry, List.forall_mem_cons]
  exact ⟨.ofExtension rfl ExcludeBranch.structured_blind (by simp [payloads]), .of_none rfl,
    .ofExtension rfl PasswordPolicy.structured_blind (by simp [payloads]),
    .ofExtension rfl TransactionSpecification.structured_blind (by simp [payloads]),
    .ofExtension rfl (JsonFormatted.structured_blind _) (by simp [payloads]),
    .ofExtension rfl (JsonFormatted.structured_blind _) (by simp [payloads]), by simp⟩

theorem KnownRequest.blind : registry.Blind payloads := by
  refine .of_entries ?_
  simp only [registry, List.forall_mem_cons]
  exact ⟨.ofExtension rfl GeneratePassword.structured_blind (by simp [payloads]),
    .ofExtension rfl BackupQuery.structured_blind (by simp [payloads]), .of_none rfl,
    .ofExtension rfl EndTransaction.structured_blind (by simp [payloads]), by simp⟩

theorem KnownResult.blind : registry.Blind payloads := by
  refine .of_entries ?_
  simp only [registry, List.forall_mem_cons]
  exact ⟨.ofExtension rfl GeneratedPasswords.structured_blind (by simp [payloads]),
    .ofExtension rfl BackupDescriptor.structured_blind (by simp [payloads]), by simp⟩

theorem KnownIntermediate.blind : registry.Blind payloads := by
  refine .of_entries ?_
  simp only [registry, List.forall_mem_cons]
  exact ⟨.ofExtension rfl MissingChangelog.structured_blind (by simp [payloads]), by simp⟩

/-- Lenient readers look at the keys they know, and no reader looks behind a value in octets. -/
theorem documents_read_blindly :
    KnownControl.registry.Blind KnownControl.payloads ∧
    KnownRequest.registry.Blind KnownRequest.payloads ∧
    KnownResult.registry.Blind KnownResult.payloads ∧
    KnownIntermediate.registry.Blind KnownIntermediate.payloads :=
  ⟨KnownControl.blind, KnownRequest.blind, KnownResult.blind, KnownIntermediate.blind⟩

/-- Unknown keys in a document, in its structured value and in an item of that, and a structured
value that is none behind octets. -/
theorem documents_read_blindly_notes :
    let note : Members := [("note", .null)]
    let item (extra : Members) : Value :=
      .object (extra ++ [("password", .string "p"), ("validation-attempted", .bool true)])
    let payload (extra : Members) : Members :=
      [("generated-passwords", .array [item extra])] ++ extra ++ [("password-policy-dn", .string "")]
    let header : Members :=
      [("oid", .string "1.3.6.1.4.1.30221.2.6.63"), ("result-code", .ofInt 0)]
    let document (extra : Members) : Members :=
      extra ++ header ++ [("value-json", .object (payload extra))]
    let octets : Members := note ++ header ++ [("value-base64", .string "MAA=")]
    let read := KnownResult.registry.ofDocument
    Document.Alike ExtendedResult KnownResult.payloads (document []) (document note) ∧
    read false (.object (document [])) = read false (.object (document note)) ∧
    (read true (.object (document []))).isOk = true ∧
    (read true (.object (document note))).isOk = false ∧
    octets.Ordered ∧
    read true (.object octets) = read true (.object (octets.insert "value-json" (.bool true))) := by
  intro note item payload header document octets read
  obtain ⟨-, -, hresults, -⟩ := documents_read_blindly
  have hkeys : (Document.keys ExtendedResult).filter (· ≠ Document.structuredKey) =
      ["oid", "response-name", "value-base64", "result-code", "matched-dn", "diagnostic-message",
        "referral-urls"] := by decide
  have hitem : Value.Alike GeneratedPassword.fields (item []) (item note) := by
    refine .object ?_
    simp only [Members.AgreeOn, GeneratedPassword.fields, List.forall_mem_cons]
    exact ⟨rfl, rfl, rfl, by simp⟩
  have hpayload : PayloadKeys.Alike ⟨GeneratedPasswords.extension.oid,
      GeneratedPasswords.structured.fields, GeneratedPasswords.items⟩
      (payload []) (payload note) := by
    constructor
    · simp only [GeneratedPasswords.structured, GeneratedPasswords.items, List.forall_mem_cons]
      exact ⟨fun _ ↦ rfl, fun h ↦ absurd (by decide) h, by simp⟩
    · simp only [GeneratedPasswords.items, List.mem_singleton, Prod.mk.injEq]
      rintro _ _ ⟨rfl, rfl⟩
      exact .array (.cons hitem .nil)
  have halike : Document.Alike ExtendedResult KnownResult.payloads (document [])
      (document note) := by
    constructor
    · rw [hkeys, Members.AgreeOn]
      simp only [List.forall_mem_cons]
      exact ⟨rfl, rfl, rfl, rfl, rfl, rfl, rfl, by simp⟩
    · refine .inr ⟨payload [], payload note, rfl, rfl, ?_⟩
      simp only [KnownResult.payloads, List.forall_mem_cons]
      refine ⟨fun _ ↦ hpayload, fun h ↦ ?_, by simp⟩
      have hoid : GeneratedPasswords.extension.oid = BackupDescriptor.extension.oid :=
        Value.string.inj (Option.some.inj h)
      exact absurd hoid (by decide)
  have hoctets : octets.Ordered := by decide
  refine ⟨halike, (hresults.unknown _ _ halike).1, by decide +kernel, by decide +kernel,
    hoctets, ?_⟩
  exact (hresults.hidden true octets _ "MAA=" hoctets (hoctets.insert _ _) rfl fun k hk ↦
    (Members.get?_insert_of_ne hk _ octets).symm).1

end LdapCodec
