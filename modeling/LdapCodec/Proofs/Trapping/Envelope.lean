import LdapCodec.Proofs.Reencoding
import LdapCodec.Proofs.Strictness
import LdapCodec.Proofs.Trapping.Ber

namespace LdapCodec.Trapping

open Ber Json
open Envelope (oid?)

variable (trap : DecodeError)

def payloadElement (value : Option Bytes) (name : String) : Except DecodeError Element := do
  let bytes ← Payload.require value name
  within name (decode trap bytes)

def payloadFields (value : Option Bytes) (name : String) (min max : Nat) :
    Except DecodeError (List Element) := do
  let e ← payloadElement trap value name
  let children ← within name e.asSequence
  checkCount children min max name
  .ok children

@[simp]
theorem payloadFields_eq (value : Option Bytes) (name : String) (min max : Nat) :
    payloadFields trap value name min max = Payload.fields value name min max := by
  simp only [payloadFields, payloadElement, decode_eq]
  rfl

def control (e : Element) : Except DecodeError Control := do
  let children ← within "Control" e.asSequence
  checkCount children 1 3 "Control"
  let first ← item trap children 0
  if first.tag ≠ .octetString then
    .error (.invalidElementType
      s!"Control type must be an OCTET STRING, got {first.tag.describe}")
  else
    let oid ← within "Control type" first.asText
    if oid = "" then .error (.decoding "Control type is empty")
    else
      let rest ← slice trap children 1 children.length
      let (critical, value) ← optionalFields s!"control {oid}"
        .boolean (fun e ↦ within "Control criticality" (asBoolean trap e))
        .octetString Element.asOctets rest
      .ok ⟨oid, critical.getD false, value⟩

theorem control_eq (e : Element) : control trap e = Control.ofElement e := by
  unfold control Control.ofElement
  cases within "Control" e.asSequence with
  | error err => rfl
  | ok children =>
    cases children with
    | nil => rfl
    | cons first rest => simp only [item_zero, slice_tail, asBoolean_eq, ok_bind]

def request (e : Element) : Except DecodeError ExtendedRequest := do
  e.expectTag ExtendedRequest.tag
  let children ← e.asChildren
  checkCount children 1 2 "Extended request"
  let first ← item trap children 0
  if first.tag ≠ ExtendedRequest.nameTag then
    .error (.invalidElementType
      s!"Extended request name must be [0], got {first.tag.describe}")
  else
    let oid ← within "Extended request name" first.asText
    if oid = "" then .error (.decoding "Extended request name is empty")
    else
      match children[1]? with
      | none => .ok ⟨oid, none⟩
      | some field =>
        if field.tag = ExtendedRequest.valueTag then .ok ⟨oid, some (← field.asOctets)⟩
        else .error (unexpected field s!"extended request {oid}")

theorem request_eq (e : Element) : request trap e = ExtendedRequest.ofElement e := by
  unfold request ExtendedRequest.ofElement
  cases e.expectTag ExtendedRequest.tag with
  | error err => rfl
  | ok _ =>
    cases e.asChildren with
    | error err => rfl
    | ok children =>
      match children with
      | [] => rfl
      | [first] => rfl
      | [first, field] =>
        have hc : checkCount [first, field] 1 2 "Extended request" = .ok () :=
          checkCount_eq_ok (by simp) (by simp)
        simp only [ok_bind, hc, item_zero]
        split
        · rfl
        · refine bind_congr fun oid ↦ ?_
          split
          · rfl
          · simp only [List.getElem?_cons_succ, List.getElem?_cons_zero, optionalField]
            split
            · simp only [bind_assoc]
              exact bind_congr fun octets ↦ rfl
            · rfl
      | a :: b :: c :: rest => rfl

def components (children : List Element) : Except DecodeError (OperationResult × Nat) :=
  if children.length < 3 then
    .error (.invalidElementCount
      s!"LDAPResult must have at least 3 elements, got {children.length}")
  else do
    let v ← within "Result code" (asInteger trap (← item trap children 0))
    match Word.ofInt? v with
    | none => .error (.valueOutOfRange s!"Result code {v} out of range")
    | some code =>
      let matchedDn ← OperationResult.optionalText (← item trap children 1) "Matched DN"
      let diagnostic ← OperationResult.optionalText (← item trap children 2) "Diagnostic message"
      match children[3]?.filter (·.tag = OperationResult.referralTag) with
      | none => .ok (⟨⟨code⟩, matchedDn, diagnostic, []⟩, 3)
      | some field =>
        let referrals ← OperationResult.ofComponents.readReferrals field
        .ok (⟨⟨code⟩, matchedDn, diagnostic, referrals⟩, 4)

def result (e : Element) : Except DecodeError ExtendedResult := do
  e.expectTag ExtendedResult.tag
  let children ← e.asChildren
  checkCount children 3 6 "Extended result"
  let (result, taken) ← components trap children
  let rest ← slice trap children taken children.length
  let (oid, value) ← optionalFields "extended result"
    ExtendedResult.nameTag (fun e ↦ within "Response name" e.asText)
    ExtendedResult.valueTag Element.asOctets rest
  .ok ⟨result, oid, value⟩

theorem components_eq (children : List Element) :
    (do
      let (result, taken) ← components trap children
      let rest ← slice trap children taken children.length
      .ok (result, rest)) = OperationResult.ofComponents children := by
  match children with
  | [] => rfl
  | [_] => rfl
  | [_, _] => rfl
  | a :: b :: c :: rest =>
    have hcount : ¬(a :: b :: c :: rest).length < 3 := by simp
    have hslice : slice trap (a :: b :: c :: rest) 3 (a :: b :: c :: rest).length = .ok rest :=
      slice_append trap [a, b, c] rest
    rw [components, if_neg hcount]
    simp only [item_zero, item_succ, ok_bind, asInteger_eq, bind_assoc,
      OperationResult.ofComponents]
    refine bind_congr fun v ↦ ?_
    cases Word.ofInt? v with
    | none => rfl
    | some code =>
      simp only [bind_assoc]
      refine bind_congr fun matchedDn ↦ bind_congr fun diagnostic ↦ ?_
      cases rest with
      | nil => exact (congrArg (Except.map _) hslice).trans rfl
      | cons field rest =>
        simp only [List.getElem?_cons_succ, List.getElem?_cons_zero, optionalField]
        by_cases ht : field.tag = OperationResult.referralTag
        · have hf : (some field).filter (·.tag = OperationResult.referralTag) = some field := by
            simp [ht]
          have hafter : slice trap (a :: b :: c :: field :: rest) 4
              (a :: b :: c :: field :: rest).length = .ok rest :=
            slice_append trap [a, b, c, field] rest
          simp only [hf, if_pos ht, bind_assoc, ok_bind, hafter, Option.getD_some]
        · have hf : (some field).filter (·.tag = OperationResult.referralTag) = none := by
            simp [ht]
          simp only [hf, if_neg ht, ok_bind, hslice, Option.getD_none]

theorem result_eq (e : Element) : result trap e = ExtendedResult.ofElement e := by
  unfold result ExtendedResult.ofElement
  simp only [← components_eq trap, bind_assoc, ok_bind]

def oid (s : String) : Except DecodeError Oid := do
  let ps := Oid.parts s.toList
  let invalid (reason : String) : Except DecodeError Oid :=
    .error (.valueOutOfRange s!"Invalid numeric OID: {Quoted.quote s}{reason}")
  if ps.length < 2 || !ps.all Decimal.isNumber then
    invalid ""
  else
    let arcs ← ps.mapM Oid.arc
    let first ← item trap arcs 0
    let second ← item trap arcs 1
    if first ≤ 1 && second > 39 then invalid " (second arc must be at most 39)"
    else if first ≤ 2 then .ok ⟨arcs⟩
    else invalid " (first arc must be 0, 1 or 2)"

theorem oid_eq (s : String) : oid trap s = Oid.parse s := by
  unfold oid Oid.parse
  dsimp only
  split
  · rfl
  · rename_i hp
    cases hm : (Oid.parts s.toList).mapM Oid.arc with
    | error err => rfl
    | ok arcs =>
      have hl := length_of_mapM hm
      match arcs with
      | [] => simp [← hl] at hp
      | [_] => simp [← hl] at hp
      | first :: second :: rest => rfl

def checkOid (name : Option String) (strict : Bool) (kind : String) : Except DecodeError Unit :=
  match name with
  | none => .ok ()
  | some o =>
    if o = "" then .error (.decoding s!"Empty OID in {kind} document")
    else if strict then (within kind (oid trap o)).map fun _ ↦ ()
    else .ok ()

theorem checkOid_eq (name : Option String) (strict : Bool) (kind : String) :
    checkOid trap name strict kind = Document.checkOid name strict kind := by
  cases name with
  | none => rfl
  | some o => simp only [checkOid, oid_eq, Document.checkOid]

/-- How envelopes of a kind are read item by item, and made by their constructor, which
accepts only some. -/
class Kind (E : Type) {H : outParam Type} [Envelope E H] where
  ofElement : DecodeError → Element → Except DecodeError E
  construct : DecodeError → E → Except DecodeError E
  Accepts : E → Prop
  ofElement_eq : ∀ trap e, ofElement trap e = Envelope.ofElement e
  construct_eq : ∀ trap e, Accepts e → construct trap e = .ok e
  accepts_of_ofElement : ∀ x e, Envelope.ofElement x = .ok e → Accepts e
  accepts_of_oid? : ∀ e, oid? e ≠ some "" → Accepts e

instance : Kind Control where
  ofElement := control
  construct trap c := built trap (Control.build c.oid c.critical c.value)
  Accepts c := c.oid ≠ ""
  ofElement_eq := control_eq
  construct_eq trap c h := by rw [Control.build, if_neg h, built_ok]
  accepts_of_ofElement _ _ h := (Control.fields_of_ofElement h).1
  accepts_of_oid? c h := fun ho ↦ h (congrArg some ho)

instance : Kind ExtendedRequest where
  ofElement := request
  construct trap r := built trap (ExtendedRequest.build r.oid r.value)
  Accepts r := r.oid ≠ ""
  ofElement_eq := request_eq
  construct_eq trap r h := by rw [ExtendedRequest.build, if_neg h, built_ok]
  accepts_of_ofElement _ _ h := (ExtendedRequest.fields_of_ofElement h).1
  accepts_of_oid? r h := fun ho ↦ h (congrArg some ho)

instance : Kind ExtendedResult where
  ofElement := result
  construct _ := .ok
  Accepts _ := True
  ofElement_eq := result_eq
  construct_eq _ _ _ := rfl
  accepts_of_ofElement _ _ _ := trivial
  accepts_of_oid? _ _ := trivial

instance : Kind IntermediateResponse where
  ofElement _ := IntermediateResponse.ofElement
  construct _ := .ok
  Accepts _ := True
  ofElement_eq _ _ := rfl
  construct_eq _ _ _ := rfl
  accepts_of_ofElement _ _ _ := trivial
  accepts_of_oid? _ _ := trivial

section

variable {E H : Type} [Envelope E H] [Kind E]

def ofBytes (bytes : Bytes) : Except DecodeError E := do
  Kind.ofElement trap (← decode trap bytes)

theorem ofBytes_eq (bytes : Bytes) : ofBytes (E := E) trap bytes = Envelope.decode bytes := by
  simp only [ofBytes, decode_eq, Kind.ofElement_eq]
  rfl

variable [Documented E]

def parse (strict : Bool) (document : Value) : Except DecodeError (Parsed E) := do
  match document.asMembers? with
  | none => .error (.decoding s!"{Envelope.kind E} document must be a JSON object")
  | some ms =>
    match Documented.frame? (E := E) ms, ms.optional Value.asText? Document.octetsKey with
    | some frame, some octets =>
      match ms.unknown? (Document.keys E), strict with
      | some key, true =>
        .error (.unrecognizedField
          s!"Unrecognized field '{key}' in {Envelope.kind E} document")
      | _, _ =>
        checkOid trap frame.oid strict (Envelope.kind E)
        match octets with
        | some text =>
          let bytes ← decodeBase64 text (Envelope.kind E)
          let envelope ← Kind.construct trap (frame.attach (some bytes))
          .ok ⟨envelope, frame.name, none⟩
        | none =>
          let structured := (ms.get? Document.structuredKey).filter fun v ↦ !v matches .null
          let envelope ← Kind.construct trap (frame.attach none)
          .ok ⟨envelope, frame.name, structured⟩
    | _, _ =>
      .error (.decoding
        s!"Invalid {Envelope.kind E} document: a key is missing or of the wrong type")

variable [Documented.Named E]

/-- Whatever a document has for a value, its envelope can be constructed. -/
theorem accepts_attach {ms : Members} {frame : Frame E} {strict : Bool} {kind : String}
    (hf : Documented.frame? ms = some frame)
    (hc : Document.checkOid frame.oid strict kind = .ok ()) (value : Option Bytes) :
    Kind.Accepts (frame.attach value) := by
  apply Kind.accepts_of_oid?
  rw [Documented.Named.oid?_attach ms frame value hf]
  exact fun ho ↦ (Document.checkOid_eq_ok_iff.1 hc "" ho).1 rfl

theorem accepts_of_parse {strict : Bool} {document : Value} {parsed : Parsed E}
    (h : Document.parse strict document = .ok parsed) : Kind.Accepts parsed.envelope := by
  unfold Document.parse at h
  split at h
  · cases h
  split at h
  · rename_i frame octets hf _
    split at h
    · cases h
    obtain ⟨_, hc, h⟩ := bind_eq_ok.1 h
    split at h
    · obtain ⟨bytes, _, h⟩ := bind_eq_ok.1 h
      cases h
      exact accepts_attach hf hc _
    · cases h
      exact accepts_attach hf hc _
  · cases h

theorem parse_eq (strict : Bool) (document : Value) :
    parse (E := E) trap strict document = Document.parse strict document := by
  unfold parse Document.parse
  cases document.asMembers? with
  | none => rfl
  | some ms =>
    dsimp only
    cases hf : Documented.frame? (E := E) ms with
    | none => rfl
    | some frame =>
      cases ms.optional Value.asText? Document.octetsKey with
      | none => rfl
      | some octets =>
        simp only [checkOid_eq]
        cases hc : Document.checkOid frame.oid strict (Envelope.kind E) with
        | error err => rfl
        | ok _ =>
          have hk (value : Option Bytes) :
              Kind.construct trap (frame.attach value) = .ok (frame.attach value) :=
            Kind.construct_eq trap _ (accepts_attach hf hc value)
          simp only [hk]
          rfl

end

end LdapCodec.Trapping
