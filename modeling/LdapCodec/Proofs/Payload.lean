import LdapCodec.Known
import LdapCodec.Proofs.Ber.Fields
import LdapCodec.Proofs.Json.Fields
import LdapCodec.Proofs.Outcome

namespace LdapCodec

open Json

namespace Ber

variable {α : Type} {P : α → Prop}

/-- What holds of the defaults and is kept by every field holds of the whole. -/
theorem orderedFields_preserves {what : String} {read : α → Element → Except DecodeError (Nat × α)}
    (hr : ∀ x e place y, P x → read x e = .ok (place, y) → P y) {next : Nat} {x y : α}
    {es : List Element} (hx : P x) (h : orderedFields what read next x es = .ok y) : P y := by
  induction es generalizing next x with
  | nil =>
    cases h
    exact hx
  | cons e es ih =>
    obtain ⟨⟨place, z⟩, hz, h⟩ := bind_eq_ok.1 h
    have hp := hr x e place z hx hz
    dsimp only at h
    split at h
    · simp at h
    · exact ih hp h

theorem of_optionalField {tag : Tag} {read : Element → Except DecodeError α}
    (hr : ∀ e x, read e = .ok x → P x) {es rest : List Element} {x : Option α}
    (h : optionalField tag read es = .ok (x, rest)) : ∀ a, x = some a → P a := by
  obtain ⟨rfl, -⟩ | ⟨e, y, -, rfl, -, hy⟩ := optionalField_eq_ok_iff.1 h
  · simp
  · intro a ha
    cases ha
    exact hr e y hy

end Ber

namespace Payload

variable {bytes : Bytes} {name : String} {min max : Nat} {es : List Ber.Element}

theorem fields_of_decode (h : Ber.Element.decode bytes = .ok (.sequence es)) :
    fields (some bytes) name min max = (do
      Ber.checkCount es min max name
      .ok es) := by
  rw [fields, element, require, ok_bind, h, Ber.within_ok, ok_bind,
    Ber.Element.asSequence_sequence, Ber.within_ok, ok_bind]

theorem decode_of_fields (h : fields (some bytes) name min max = .ok es) :
    Ber.Element.decode bytes = .ok (.sequence es) := by
  obtain ⟨e, he, h⟩ := bind_eq_ok.1 h
  obtain ⟨children, hs, h⟩ := bind_eq_ok.1 h
  obtain ⟨_, _, h⟩ := bind_eq_ok.1 h
  cases h
  obtain ⟨_, htag, hchildren⟩ := bind_eq_ok.1 (Ber.within_eq_ok.1 hs)
  rw [Ber.within_eq_ok.1 he, Ber.Element.eq_ofChildren_of_asChildren
    (Ber.Element.tag_of_expectTag htag) hchildren]
  rfl

end Payload

theorem orInvalid_eq_ok {α : Type} {name : String} {x : Option α} {a : α}
    (h : orInvalid name x = .ok a) : x = some a := by
  cases x with
  | none => cases h
  | some b =>
    cases h
    rfl

section

variable {α : Type} {name : String} {read : Option Bytes → Except DecodeError α}
  {result : OperationResult} {value : Option Bytes}

theorem resultValue_none (hs : result.code.isSuccess = false) :
    resultValue name read result none = .ok none := if_neg (Bool.eq_false_iff.1 hs)

theorem resultValue_some {bytes : Bytes} {x : α} (h : read (some bytes) = .ok x) :
    resultValue name read result (some bytes) = .ok (some x) := by
  rw [resultValue, h, ok_bind]

theorem isSuccess_of_resultValue (h : resultValue name read result value = .ok none) :
    result.code.isSuccess = false := by
  cases value with
  | none =>
    obtain ⟨hs, _⟩ := ite_error_eq_ok_iff.1 h
    exact Bool.eq_false_iff.2 hs
  | some bytes =>
    obtain ⟨_, _, h⟩ := bind_eq_ok.1 h
    cases h

theorem read_of_resultValue {x : α} (h : resultValue name read result value = .ok (some x)) :
    read value = .ok x := by
  cases value with
  | none => cases (ite_error_eq_ok_iff.1 h).2
  | some bytes =>
    obtain ⟨_, hx, h⟩ := bind_eq_ok.1 h
    cases h
    exact hx

theorem eq_new_of_failedResult {what : String} {x : Typed OperationResult (Option α)}
    (h : failedResult what result = .ok x) :
    x = .new result none ∧ result.code.isSuccess = false := by
  obtain ⟨hs, rfl⟩ := ite_error_eq_ok_iff.1 h
  exact ⟨rfl, Bool.eq_false_iff.2 hs⟩

end

theorem Word.filter_ofInt?_eq_some_iff (v : Int) (w : Int32) (p : Int32 → Bool) :
    (ofInt? v).filter p = some w ↔ w.toInt = v ∧ p w = true := by
  rw [Option.filter_eq_some_iff]
  constructor
  · rintro ⟨h, hp⟩
    exact ⟨toInt_of_ofInt? h, hp⟩
  · rintro ⟨rfl, hp⟩
    exact ⟨ofInt?_toInt w, hp⟩

namespace ExcludeBranch

def Valid (x : ExcludeBranch) : Prop := x.baseDns ≠ []

theorem check_eq_ok_iff {baseDns : List String} {x : ExcludeBranch} :
    check baseDns = .ok x ↔ x = ⟨baseDns⟩ ∧ x.Valid := by
  rw [check, ite_error_eq_ok_iff]
  constructor
  · rintro ⟨hn, rfl⟩
    exact ⟨rfl, hn⟩
  · rintro ⟨rfl, hv⟩
    exact ⟨hv, rfl⟩

theorem valid_of_build {critical : Bool} {baseDns : List String} {x : Typed Bool ExcludeBranch}
    (h : build critical baseDns = .ok x) : x = .new critical ⟨baseDns⟩ ∧ Valid ⟨baseDns⟩ := by
  obtain ⟨hn, rfl⟩ := ite_error_eq_ok_iff.1 h
  exact ⟨rfl, hn⟩

theorem valid_of_read {strict : Bool} {ms : Members} {x : ExcludeBranch}
    (h : structured.read strict ms = .ok x) : x.Valid := by
  obtain ⟨_, _, h⟩ := bind_eq_ok.1 h
  exact (check_eq_ok_iff.1 h).2

theorem valid_of_decode {fields : List Ber.Element} {x : ExcludeBranch}
    (h : decode fields = .ok x) : x.Valid := by
  cases fields with
  | nil => exact (check_eq_ok_iff.1 h).2
  | cons first rest =>
    obtain ⟨_, _, h⟩ := bind_eq_ok.1 h
    obtain ⟨_, _, h⟩ := bind_eq_ok.1 h
    obtain ⟨_, _, h⟩ := bind_eq_ok.1 h
    exact (check_eq_ok_iff.1 h).2

end ExcludeBranch

namespace GeneratePassword

def Valid (x : GeneratePassword) : Prop := 1 ≤ x.passwords ∧ 0 ≤ x.attempts

theorem checkLeast_eq_ok_iff {least w : Int32} {rule : String} {v : Int} :
    checkLeast least rule v = .ok w ↔ w.toInt = v ∧ least ≤ w := by
  have hw := Word.filter_ofInt?_eq_some_iff v w (least ≤ ·)
  rw [decide_eq_true_iff] at hw
  rw [← hw, checkLeast]
  cases (Word.ofInt? v).filter (least ≤ ·) with
  | none => simp
  | some u => simp

/-- What an element says of a request, by its tag, with the place it has among the fields. It
replaces what was there before. -/
inductive FieldRead (x : GeneratePassword) (e : Ber.Element) : Nat × GeneratePassword → Prop
  | default (ht : e.tag = .contextSpecific false 0) (hn : e.asNull = .ok ()) :
    FieldRead x e (0, { x with selection := .default })
  | policy {dn : String} (ht : e.tag = .contextSpecific false 1) (hdn : e.asText = .ok dn) :
    FieldRead x e (0, { x with selection := .policy dn })
  | target {dn : String} (ht : e.tag = .contextSpecific false 2) (hdn : e.asText = .ok dn) :
    FieldRead x e (0, { x with selection := .target dn })
  | passwords {w : Int32} (ht : e.tag = .contextSpecific false 3)
    (hi : e.asInteger = .ok w.toInt) (hw : 1 ≤ w) : FieldRead x e (1, { x with passwords := w })
  | attempts {w : Int32} (ht : e.tag = .contextSpecific false 4)
    (hi : e.asInteger = .ok w.toInt) (hw : 0 ≤ w) : FieldRead x e (2, { x with attempts := w })

theorem readField_eq_ok_iff {x : GeneratePassword} {e : Ber.Element}
    {field : Nat × GeneratePassword} : readField x e = .ok field ↔ FieldRead x e field := by
  constructor
  · intro h
    unfold readField at h
    split at h
    · rename_i ht
      obtain ⟨_, hn, h⟩ := bind_eq_ok.1 h
      cases h
      exact .default ht (Ber.within_eq_ok.1 hn)
    split at h
    · rename_i ht
      obtain ⟨dn, hdn, h⟩ := bind_eq_ok.1 h
      cases h
      exact .policy ht (Ber.within_eq_ok.1 hdn)
    split at h
    · rename_i ht
      obtain ⟨dn, hdn, h⟩ := bind_eq_ok.1 h
      cases h
      exact .target ht (Ber.within_eq_ok.1 hdn)
    split at h
    · rename_i ht
      obtain ⟨v, hv, h⟩ := bind_eq_ok.1 h
      obtain ⟨w, hp, h⟩ := bind_eq_ok.1 h
      cases h
      obtain ⟨rfl, hw⟩ := checkLeast_eq_ok_iff.1 hp
      exact .passwords ht (Ber.within_eq_ok.1 hv) hw
    split at h
    · rename_i ht
      obtain ⟨v, hv, h⟩ := bind_eq_ok.1 h
      obtain ⟨w, ha, h⟩ := bind_eq_ok.1 h
      cases h
      obtain ⟨rfl, hw⟩ := checkLeast_eq_ok_iff.1 ha
      exact .attempts ht (Ber.within_eq_ok.1 hv) hw
    · cases h
  · intro h
    cases h with
    | default ht hn => simp [readField, ht, hn]
    | policy ht hdn => simp [readField, ht, hdn]
    | target ht hdn => simp [readField, ht, hdn]
    | passwords ht hi hw =>
      simp [readField, ht, hi, checkPasswords, checkLeast_eq_ok_iff.2 ⟨rfl, hw⟩]
    | attempts ht hi hw =>
      simp [readField, ht, hi, checkAttempts, checkLeast_eq_ok_iff.2 ⟨rfl, hw⟩]

theorem valid_of_readField (x : GeneratePassword) (e : Ber.Element) (place : Nat)
    (y : GeneratePassword) (hx : x.Valid) (h : readField x e = .ok (place, y)) : y.Valid := by
  cases readField_eq_ok_iff.1 h with
  | default => exact hx
  | policy => exact hx
  | target => exact hx
  | passwords _ _ hw => exact ⟨hw, hx.2⟩
  | attempts _ _ hw => exact ⟨hx.1, hw⟩

theorem valid_standard : standard.Valid := ⟨by decide, by decide⟩

theorem valid_of_decodeValue {value : Option Bytes} {x : GeneratePassword}
    (h : decodeValue value = .ok x) : x.Valid := by
  cases value with
  | none =>
    cases h
    exact valid_standard
  | some bytes =>
    obtain ⟨fields, _, h⟩ := bind_eq_ok.1 h
    exact Ber.orderedFields_preserves valid_of_readField valid_standard h

theorem valid_of_build {selection : PolicySelection} {passwords attempts : Int32}
    {x : Typed Unit GeneratePassword} (h : build selection passwords attempts = .ok x) :
    x = .new () ⟨selection, passwords, attempts⟩ ∧ Valid ⟨selection, passwords, attempts⟩ := by
  unfold build at h
  split at h
  · cases h
  · rename_i hp
    obtain ⟨ha, rfl⟩ := ite_error_eq_ok_iff.1 h
    exact ⟨rfl, Int32.not_lt.1 hp, Int32.not_lt.1 ha⟩

theorem valid_of_read {strict : Bool} {ms : Members} {x : GeneratePassword}
    (h : structured.read strict ms = .ok x) : x.Valid := by
  obtain ⟨_, _, h⟩ := bind_eq_ok.1 h
  obtain ⟨_, _, h⟩ := bind_eq_ok.1 h
  obtain ⟨_, _, h⟩ := bind_eq_ok.1 h
  obtain ⟨_, _, h⟩ := bind_eq_ok.1 h
  obtain ⟨_, _, h⟩ := bind_eq_ok.1 h
  obtain ⟨_, hp, h⟩ := bind_eq_ok.1 h
  obtain ⟨_, ha, h⟩ := bind_eq_ok.1 h
  cases h
  exact ⟨(checkLeast_eq_ok_iff.1 hp).2, (checkLeast_eq_ok_iff.1 ha).2⟩

end GeneratePassword

namespace GeneratedPasswords

def Valid (x : GeneratedPasswords) : Prop := x.passwords ≠ []

theorem check_eq_ok_iff {policyDn : String} {passwords : List GeneratedPassword}
    {x : GeneratedPasswords} :
    check policyDn passwords = .ok x ↔ x = ⟨policyDn, passwords⟩ ∧ x.Valid := by
  rw [check, ite_error_eq_ok_iff]
  constructor
  · rintro ⟨hn, rfl⟩
    exact ⟨rfl, hn⟩
  · rintro ⟨rfl, hv⟩
    exact ⟨hv, rfl⟩

theorem valid_of_decode {fields : List Ber.Element} {x : GeneratedPasswords}
    (h : decode fields = .ok x) : x.Valid := by
  unfold decode at h
  split at h
  · obtain ⟨_, _, h⟩ := bind_eq_ok.1 h
    obtain ⟨_, _, h⟩ := bind_eq_ok.1 h
    obtain ⟨_, _, h⟩ := bind_eq_ok.1 h
    obtain ⟨_, _, h⟩ := bind_eq_ok.1 h
    exact (check_eq_ok_iff.1 h).2
  · exact (check_eq_ok_iff.1 h).2

theorem decodeValue_eq : extension.decodeValue =
    resultValue name fun value ↦ Payload.fields value name 2 2 >>= decode := rfl

theorem valid_of_decodeValue {result : OperationResult} {value : Option Bytes}
    {a : Option GeneratedPasswords} (h : decodeValue result value = .ok a) :
    ∀ x, a = some x → x.Valid := by
  rintro x rfl
  obtain ⟨_, _, hx⟩ := bind_eq_ok.1 (read_of_resultValue h)
  exact valid_of_decode hx

theorem valid_of_build {policyDn : String} {passwords : List GeneratedPassword}
    {x : Typed OperationResult (Option GeneratedPasswords)}
    (h : build policyDn passwords = .ok x) :
    x = .new .success (some ⟨policyDn, passwords⟩) ∧ Valid ⟨policyDn, passwords⟩ := by
  obtain ⟨hn, rfl⟩ := ite_error_eq_ok_iff.1 h
  exact ⟨rfl, hn⟩

/-- A structured value always has passwords. -/
theorem valid_of_read {strict : Bool} {ms : Members} {a : Option GeneratedPasswords}
    (h : structured.read strict ms = .ok a) : ∃ x, a = some x ∧ x.Valid := by
  obtain ⟨_, _, h⟩ := bind_eq_ok.1 h
  obtain ⟨_, _, h⟩ := bind_eq_ok.1 h
  obtain ⟨_, _, h⟩ := bind_eq_ok.1 h
  obtain ⟨_, _, h⟩ := bind_eq_ok.1 h
  obtain ⟨x, hx, h⟩ := bind_eq_ok.1 h
  cases h
  exact ⟨x, rfl, (check_eq_ok_iff.1 hx).2⟩

end GeneratedPasswords

namespace BackupDescriptor

theorem decodeValue_eq : extension.decodeValue =
    resultValue name fun value ↦ Payload.fields value name 1 2 >>= decode := rfl

/-- A structured value always has a descriptor. -/
theorem exists_of_read {strict : Bool} {ms : Members} {a : Option BackupDescriptor}
    (h : structured.read strict ms = .ok a) : ∃ x, a = some x := by
  obtain ⟨_, _, h⟩ := bind_eq_ok.1 h
  obtain ⟨_, _, h⟩ := bind_eq_ok.1 h
  obtain ⟨_, _, h⟩ := bind_eq_ok.1 h
  cases h
  exact ⟨_, rfl⟩

end BackupDescriptor

namespace PasswordPolicy

def Valid (x : PasswordPolicy) : Prop := ∀ w, x.warning = some w → 0 ≤ w.amount

theorem mem_of_asNamed? {α : Type} {names : List (String × α)} {v : Value} {a : α}
    (h : asNamed? names v = some a) : ∃ key, (key, a) ∈ names := by
  have hl {key : String} (hk : names.lookup key = some a) : (key, a) ∈ names := by
    obtain ⟨before, after, rfl, _⟩ := List.lookup_eq_some_iff.1 hk
    simp
  unfold asNamed? at h
  split at h
  · exact ⟨_, hl h⟩
  · exact ⟨_, hl h⟩
  · cases h

theorem Warning.amount_of_mem_kinds {key : String} {kind : Int32 → Warning}
    (h : (key, kind) ∈ kinds) (w : Int32) : (kind w).amount = w := by
  simp only [kinds, List.mem_cons, Prod.mk.injEq, List.not_mem_nil, or_false] at h
  obtain ⟨_, rfl⟩ | ⟨_, rfl⟩ := h
  · rfl
  · rfl

/-- A warning is the only child of another element, under the tag of its kind. -/
theorem Warning.decode_eq_ok_iff {e : Ber.Element} {w : Warning} :
    Warning.decode e = .ok w ↔ ∃ choice : Ber.Element, e.asChildren = .ok [choice] ∧
      choice.tag = .contextSpecific false w.number ∧
      choice.asInteger = .ok w.amount.toInt ∧ 0 ≤ w.amount := by
  constructor
  · intro h
    obtain ⟨choices, hchoices, h⟩ := bind_eq_ok.1 h
    obtain ⟨_, hcount, h⟩ := bind_eq_ok.1 h
    have hlength := Ber.length_of_checkCount hcount
    obtain ⟨choice, rfl⟩ := List.length_eq_one_iff.1 (Nat.le_antisymm hlength.2 hlength.1)
    dsimp only at h
    split at h
    · rename_i ht
      obtain ⟨v, hv, h⟩ := bind_eq_ok.1 h
      cases h
      exact ⟨choice, hchoices, ht, Ber.nonNegative_eq_ok_iff.1 hv⟩
    split at h
    · rename_i ht
      obtain ⟨v, hv, h⟩ := bind_eq_ok.1 h
      cases h
      exact ⟨choice, hchoices, ht, Ber.nonNegative_eq_ok_iff.1 hv⟩
    · cases h
  · rintro ⟨choice, hchoices, ht, hv⟩
    have hcount : Ber.checkCount [choice] 1 1 "Password policy warning" = .ok () := rfl
    have hn : Ber.nonNegative choice "Password policy warning value" = .ok w.amount :=
      Ber.nonNegative_eq_ok_iff.2 hv
    rw [Warning.decode, hchoices, ok_bind, hcount, ok_bind]
    cases w with
    | timeBeforeExpiration v =>
      dsimp only [Warning.number, Warning.amount] at ht hn ⊢
      rw [if_pos ht, hn, ok_bind]
    | graceLoginsRemaining v =>
      dsimp only [Warning.number, Warning.amount] at ht hn ⊢
      have hne : choice.tag ≠ .contextSpecific false 0 := by
        rw [ht]
        decide
      rw [if_neg hne, if_pos ht, hn, ok_bind]

theorem nonneg_of_decode {e : Ber.Element} {w : Warning} (h : Warning.decode e = .ok w) :
    0 ≤ w.amount := by
  obtain ⟨_, -, -, -, hw⟩ := Warning.decode_eq_ok_iff.1 h
  exact hw

theorem valid_of_build {critical : Bool} {warning : Option Warning} {problem : Option Problem}
    {x : Typed Bool PasswordPolicy} (h : build critical warning problem = .ok x) :
    x = .new critical ⟨warning, problem⟩ ∧ Valid ⟨warning, problem⟩ := by
  obtain ⟨hn, rfl⟩ := ite_error_eq_ok_iff.1 h
  refine ⟨rfl, ?_⟩
  rintro w rfl
  simpa using hn

theorem valid_of_read {strict : Bool} {ms : Members} {x : PasswordPolicy}
    (h : structured.read strict ms = .ok x) : x.Valid := by
  obtain ⟨kind, hkind, h⟩ := bind_eq_ok.1 h
  obtain ⟨amount, _, h⟩ := bind_eq_ok.1 h
  obtain ⟨problem, _, h⟩ := bind_eq_ok.1 h
  cases kind with
  | none =>
    cases amount with
    | none =>
      cases h
      simp [Valid]
    | some amount => simp at h
  | some kind =>
    cases amount with
    | none => simp at h
    | some amount =>
      dsimp only at h
      split at h
      · rename_i w hw
        cases h
        obtain ⟨v, hv⟩ := Members.of_optional _ (orInvalid_eq_ok hkind)
        obtain ⟨key, hm⟩ := mem_of_asNamed? hv
        have hn := ((Word.filter_ofInt?_eq_some_iff _ _ _).1 hw).2
        rintro _ ⟨⟩
        rw [Warning.amount_of_mem_kinds hm]
        exact of_decide_eq_true hn
      · simp at h

theorem valid_of_decode {fields : List Ber.Element} {x : PasswordPolicy}
    (h : decode fields = .ok x) : x.Valid := by
  obtain ⟨⟨warning, _⟩, hfields, h⟩ := bind_eq_ok.1 h
  cases h
  obtain ⟨_, hw, -⟩ := Ber.optionalFields_eq_ok_iff.1 hfields
  exact Ber.of_optionalField (fun _ _ ↦ nonneg_of_decode) hw

end PasswordPolicy

end LdapCodec
