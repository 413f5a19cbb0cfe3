import LdapCodec.Embedded
import LdapCodec.Proofs.Outcome

namespace LdapCodec

open Ber Json

namespace Embedded

/-- What there is to say of an item, whatever the policy: it cannot be read as a control, it
is a control that does not fit its meaning, or it has one. -/
inductive Verdict (T : Type) where
  | unparsable (e : DecodeError)
  | invalid (c : Control) (e : DecodeError)
  | decoded (x : T)

namespace Verdict

variable {T : Type}

def of {π : Type} (control : π → Control) (meaning : π → Except DecodeError T) :
    Except DecodeError π → Verdict T
  | .error e => unparsable e
  | .ok p =>
    match meaning p with
    | .error e => invalid (control p) e
    | .ok x => decoded x

def ofElement (r : Registry Control T) (e : Element) : Verdict T :=
  of id r.decode (Control.ofElement e)

def ofValue (r : Registry Control T) (strict : Bool) (v : Value) : Verdict T :=
  of Parsed.envelope (r.ofParsed strict) (Document.parse (E := Control) strict v)

def error? : Verdict T → Option DecodeError
  | unparsable e => some e
  | invalid _ e => some e
  | decoded _ => none

def element? : Verdict T → Option T
  | unparsable _ => none
  | invalid _ _ => none
  | decoded x => some x

def fatal (policy : DecodePolicy) : Verdict T → Bool
  | unparsable _ => policy.throwUnparsable
  | invalid c _ =>
    if c.critical then policy.throwInvalidCritical else policy.throwInvalidNonCritical
  | decoded _ => false

def note? (index : Nat) : Verdict T → Option String
  | unparsable e => some s!"Skipped unparsable embedded control {index}: {e.describe}"
  | invalid c e =>
    let criticality := if c.critical then "critical" else "non-critical"
    some s!"Skipped invalid {criticality} embedded control {index} ({c.oid}): {e.describe}"
  | decoded _ => none

def notes (index : Nat) (verdicts : List (Verdict T)) : List String :=
  (verdicts.zipIdx index).filterMap fun p ↦ p.1.note? p.2

def elements (verdicts : List (Verdict T)) : List T := verdicts.filterMap element?

theorem notes_cons (index : Nat) (v : Verdict T) (verdicts : List (Verdict T)) :
    notes index (v :: verdicts) = (v.note? index).toList ++ notes (index + 1) verdicts := by
  rw [notes, List.zipIdx_cons, List.filterMap_cons]
  dsimp only
  cases v.note? index with
  | none => rfl
  | some note => rfl

theorem elements_cons (v : Verdict T) (verdicts : List (Verdict T)) :
    elements (v :: verdicts) = v.element?.toList ++ elements verdicts := by
  rw [elements, List.filterMap_cons]
  cases v.element? with
  | none => rfl
  | some x => rfl

theorem length_notes (index : Nat) (verdicts : List (Verdict T)) :
    (notes index verdicts).length = verdicts.countP (·.error?.isSome) := by
  induction verdicts generalizing index with
  | nil => rfl
  | cons v verdicts ih =>
    have hv : (v.note? index).toList.length = if v.error?.isSome then 1 else 0 := by
      cases v with
      | unparsable e => rfl
      | invalid c e => rfl
      | decoded x => rfl
    rw [notes_cons, List.length_append, List.countP_cons, hv, ih, Nat.add_comm]

/-- Nothing is lost: each item is an element of the result or has a note. -/
theorem length_elements_add_length_notes (index : Nat) (verdicts : List (Verdict T)) :
    (elements verdicts).length + (notes index verdicts).length = verdicts.length := by
  induction verdicts generalizing index with
  | nil => rfl
  | cons v verdicts ih =>
    have hv : v.element?.toList.length + (v.note? index).toList.length = 1 := by
      cases v with
      | unparsable e => rfl
      | invalid c e => rfl
      | decoded x => rfl
    have h := ih (index + 1)
    rw [elements_cons, notes_cons, List.length_append, List.length_append, List.length_cons]
    omega

def outcome (policy : DecodePolicy) (index : Nat) : Verdict T → Except Fault T
  | unparsable e => .error (Embedded.unparsable policy index e)
  | invalid c e => .error (Embedded.invalid policy index c e)
  | decoded x => .ok x

end Verdict

open Verdict

variable {T : Type} {policy : DecodePolicy}

theorem outcome_of {π : Type} (control : π → Control) (meaning : π → Except DecodeError T)
    (index : Nat) (parsed : Except DecodeError π) :
    (Verdict.of control meaning parsed).outcome policy index =
      match parsed with
      | .error e => .error (Embedded.unparsable policy index e)
      | .ok p => (meaning p).mapError (Embedded.invalid policy index (control p)) := by
  cases parsed with
  | error e => rfl
  | ok p =>
    simp only [Verdict.of]
    cases meaning p with
    | error e => rfl
    | ok x => rfl

theorem ofElement_eq (r : Registry Control T) (index : Nat) (e : Element) :
    ofElement r policy index e = (Verdict.ofElement r e).outcome policy index := by
  rw [ofElement, Verdict.ofElement, outcome_of]
  cases Control.ofElement e with
  | error err => rfl
  | ok c => rfl

theorem ofValue_eq (r : Registry Control T) (index : Nat) (v : Value) :
    ofValue r policy index v = (Verdict.ofValue r policy.strict v).outcome policy index := by
  rw [ofValue, Verdict.ofValue, outcome_of]
  cases Document.parse (E := Control) policy.strict v with
  | error err => rfl
  | ok parsed => rfl

theorem decodeItems_map {ι κ : Type} (decode : Nat → ι → Except Fault T) (f : κ → ι) (index : Nat)
    (notes : List String) (items : List κ) :
    decodeItems decode index notes (items.map f) =
      decodeItems (fun i x ↦ decode i (f x)) index notes items := by
  induction items generalizing index notes with
  | nil => rfl
  | cons item items ih => simp only [List.map_cons, decodeItems, ih]

def prepend (xs : List T) (r : Except DecodeError (List T) × List String) :
    Except DecodeError (List T) × List String := (r.1.map (xs ++ ·), r.2)

theorem prepend_nil (r : Except DecodeError (List T) × List String) : prepend [] r = r := by
  obtain ⟨r, ns⟩ := r
  cases r <;> rfl

theorem prepend_append (xs ys : List T) (r : Except DecodeError (List T) × List String) :
    prepend (xs ++ ys) r = prepend xs (prepend ys r) := by
  obtain ⟨r, ns⟩ := r
  cases r <;> simp [prepend, Except.map]

/-- An item that is not fatal adds its element or its note. -/
theorem decodeItems_cons {v : Verdict T} (hv : v.fatal policy = false) (index : Nat)
    (notes : List String) (verdicts : List (Verdict T)) :
    decodeItems (outcome policy) index notes (v :: verdicts) =
      prepend v.element?.toList (decodeItems (outcome policy) (index + 1)
        (notes ++ (v.note? index).toList) verdicts) := by
  cases v with
  | unparsable e =>
    have hf : ¬(Embedded.unparsable policy index e).fatal = true := Bool.eq_false_iff.1 hv
    rw [element?, Option.toList_none, prepend_nil, decodeItems, outcome]
    exact if_neg hf
  | invalid c e =>
    have hf : ¬(Embedded.invalid policy index c e).fatal = true := Bool.eq_false_iff.1 hv
    rw [element?, Option.toList_none, prepend_nil, decodeItems, outcome]
    exact if_neg hf
  | decoded x =>
    rw [note?, Option.toList_none, List.append_nil]
    rfl

/-- Up to the first fatal item, elements and notes add up. -/
theorem decodeItems_append {before : List (Verdict T)} (hb : ∀ v ∈ before, v.fatal policy = false)
    (index : Nat) (notes : List String) (rest : List (Verdict T)) :
    decodeItems (outcome policy) index notes (before ++ rest) =
      prepend (elements before) (decodeItems (outcome policy) (index + before.length)
        (notes ++ Verdict.notes index before) rest) := by
  induction before generalizing index notes with
  | nil => simp [Verdict.notes, elements, prepend_nil]
  | cons v before ih =>
    obtain ⟨hv, hb⟩ := List.forall_mem_cons.1 hb
    have hi : index + 1 + before.length = index + (v :: before).length := by
      rw [List.length_cons]
      omega
    rw [List.cons_append, decodeItems_cons hv, ih hb, notes_cons, elements_cons, prepend_append,
      hi, List.append_assoc]

/-- A fatal item ends the list with its own failure. -/
theorem decodeItems_fatal {v : Verdict T} (hv : v.fatal policy = true) (index : Nat)
    (notes : List String) (rest : List (Verdict T)) :
    ∃ own place, v.error? = some own ∧
      decodeItems (outcome policy) index notes (v :: rest) =
        (.error (own.within place), notes) := by
  cases v with
  | unparsable e =>
    refine ⟨e, s!"Embedded control {index}", rfl, ?_⟩
    rw [decodeItems, outcome]
    exact if_pos hv
  | invalid c e =>
    refine ⟨e, s!"Embedded control {index} ({c.oid})", rfl, ?_⟩
    rw [decodeItems, outcome]
    exact if_pos hv
  | decoded x => cases hv

/-- What the policy asks of a list: without a fatal item every element there is, in order,
and a note for every other item; otherwise the failure of the first fatal item, and notes for
those before it. -/
structure Follows (policy : DecodePolicy) (verdicts : List (Verdict T)) (notes : List String)
    (r : Except DecodeError (List T) × List String) : Prop where
  of_none : (∀ v ∈ verdicts, v.fatal policy = false) →
    r = (.ok (elements verdicts), notes ++ Verdict.notes 0 verdicts)
  of_fatal : (∃ v ∈ verdicts, v.fatal policy = true) →
    ∃ before v after, verdicts = before ++ v :: after ∧ v.fatal policy = true ∧
      (∀ u ∈ before, u.fatal policy = false) ∧
      ∃ own err, v.error? = some own ∧ err.kind = own.kind ∧
        r = (.error err, notes ++ Verdict.notes 0 before)

theorem follows_decodeItems (verdicts : List (Verdict T)) (notes : List String) :
    Follows policy verdicts notes (decodeItems (outcome policy) 0 notes verdicts) where
  of_none h := by
    have hr := decodeItems_append h 0 notes []
    rw [List.append_nil] at hr
    rw [hr, decodeItems, prepend]
    simp [Except.map]
  of_fatal h := by
    obtain ⟨v, hv⟩ := Option.isSome_iff_exists.1 (List.find?_isSome.2 h)
    obtain ⟨hf, before, after, rfl, hb⟩ := List.find?_eq_some_iff_append.1 hv
    have hb : ∀ u ∈ before, u.fatal policy = false := fun u hu ↦ by simpa using hb u hu
    obtain ⟨own, place, ho, hr⟩ := decodeItems_fatal hf (0 + before.length)
      (notes ++ Verdict.notes 0 before) after
    refine ⟨before, v, after, rfl, hf, hb, own, own.within place, ho, rfl, ?_⟩
    rw [decodeItems_append hb, hr]
    rfl

/-- Lists of controls inside other elements are decoded as the policy asks, in octets and as
documents. Only a list that is no list at all fails under every policy. -/
theorem embedded_follows_policy (r : Registry Control T) (policy : DecodePolicy)
    (notes : List String) :
    (∀ cls number items, Follows policy (items.map (Verdict.ofElement r)) notes
      (decode r policy notes (.constructed cls number items))) ∧
    (∀ items, Follows policy (items.map (Verdict.ofValue r policy.strict)) notes
      (decodeDocuments r policy notes items)) ∧
    (∀ cls number content, ∃ err, err.kind = .unexpectedTag ∧
      decode r policy notes (.primitive cls number content) = (.error err, notes)) ∧
    (∀ verdicts : List (Verdict T),
      (Verdict.notes 0 verdicts).length = verdicts.countP (·.error?.isSome) ∧
      (elements verdicts).length + (Verdict.notes 0 verdicts).length = verdicts.length) := by
  refine ⟨fun cls number items ↦ ?_, fun items ↦ ?_, fun cls number content ↦ ?_,
    fun verdicts ↦ ⟨length_notes 0 verdicts, length_elements_add_length_notes 0 verdicts⟩⟩
  · have hd : decode r policy notes (.constructed cls number items) =
        decodeItems (outcome policy) 0 notes (items.map (Verdict.ofElement r)) := by
      rw [decodeItems_map, decode]
      exact congrArg (decodeItems · 0 notes items) (funext fun i ↦ funext (ofElement_eq r i))
    rw [hd]
    exact follows_decodeItems _ notes
  · have hd : decodeDocuments r policy notes items =
        decodeItems (outcome policy) 0 notes (items.map (Verdict.ofValue r policy.strict)) := by
      rw [decodeItems_map, decodeDocuments]
      exact congrArg (decodeItems · 0 notes items) (funext fun i ↦ funext (ofValue_eq r i))
    rw [hd]
    exact follows_decodeItems _ notes
  · exact ⟨_, rfl, rfl⟩

end Embedded

end LdapCodec
