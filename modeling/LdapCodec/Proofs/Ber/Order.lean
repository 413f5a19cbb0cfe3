import LdapCodec.Proofs.Ber.TwosComplement
import LdapCodec.Proofs.Layout

namespace LdapCodec.Ber

inductive Perhaps {α : Type} (Field : Element → α → Prop) : List Element → Option α → Prop
  | none : Perhaps Field [] none
  | some {e : Element} {x : α} (h : Field e x) : Perhaps Field [e] (some x)

theorem Perhaps.length_le {α : Type} {Field : Element → α → Prop} {es : List Element}
    {o : Option α} (h : Perhaps Field es o) : es.length ≤ 1 := by
  cases h <;> simp

def Element.IsNumber (tag : Tag) (e : Element) (v : Int) : Prop :=
  ∃ digits, digits ≠ [] ∧ Integer.twosComplement digits = v ∧ e = .ofContent tag digits

section

variable {e : Element} {tag : Tag}

theorem Element.asInteger_eq_ok {v : Int} :
    e.asInteger = .ok v ↔ ∃ digits, e.asOctets = .ok digits ∧
      digits ≠ [] ∧ Integer.twosComplement digits = v ∧ Integer.Fits 63 v := by
  rw [asInteger, bind_eq_ok]
  refine exists_congr fun digits ↦ and_congr_right fun _ ↦ ?_
  rw [Integer.decode_eq_ok_iff, Integer.value_eq_twosComplement]
  rfl

theorem Element.isNumber_iff (hp : tag.constructed = false) {v : Int} (hv : Integer.Fits 63 v) :
    e.IsNumber tag v ↔ e.tag = tag ∧ e.asInteger = .ok v := by
  rw [asInteger_eq_ok]
  constructor
  · rintro ⟨digits, hn, hd, rfl⟩
    exact ⟨by rw [ofContent, Element.tag, ← hp], digits, rfl, hn, hd, hv⟩
  · rintro ⟨ht, digits, ho, hn, hd, -⟩
    exact ⟨digits, hn, hd, eq_ofContent_of_asOctets ht ho⟩

theorem Element.asNull_eq_ok : e.asNull = .ok () ↔ e.asOctets = .ok [] := by
  rw [asNull, bind_eq_ok]
  constructor
  · rintro ⟨content, hc, h⟩
    split at h
    · rename_i hn
      rw [hc, hn]
    · cases h
  · intro h
    exact ⟨[], h, if_pos rfl⟩

theorem fits_toInt (w : Int32) : Integer.Fits 63 w.toInt := by
  have hl := Int32.le_toInt w
  have hu := Int32.toInt_lt w
  exact ⟨by omega, by omega⟩

end

section

variable {α β : Type} {what : String} {es rest : List Element}

section

variable {read : α → Element → Except DecodeError (Nat × α)} {next place : Nat} {x y : α}

/-- What stands at the next place can only be the first element: later ones come behind it, and
without it the reader goes on to the places after. -/
theorem orderedFields_next {Field : Element → β → Prop} {set : α → β → α}
    (hread : ∀ x e y, read x e = .ok (place, y) ↔ ∃ b, Field e b ∧ y = set x b) :
    orderedFields what read place x es = .ok y ↔
      ∃ front rest o, es = front ++ rest ∧ Perhaps Field front o ∧
        orderedFields what read (place + 1) (o.elim x (set x)) rest = .ok y := by
  constructor
  · intro h
    cases es with
    | nil => exact ⟨[], [], none, rfl, .none, h⟩
    | cons e es =>
      obtain ⟨⟨p, z⟩, hz, h⟩ := bind_eq_ok.1 h
      dsimp only at h
      split at h
      · cases h
      rename_i hp
      rcases Nat.eq_or_lt_of_le (Nat.not_lt.1 hp) with rfl | hlt
      · obtain ⟨b, hb, rfl⟩ := (hread x e z).1 hz
        exact ⟨[e], es, some b, rfl, .some hb, h⟩
      · refine ⟨[], e :: es, none, rfl, .none, ?_⟩
        rwa [Option.elim_none, orderedFields_cons hz hlt]
  · rintro ⟨front, rest, o, rfl, hf, h⟩
    cases hf with
    | none =>
      cases rest with
      | nil => exact h
      | cons e rest =>
        rw [Option.elim_none] at h
        obtain ⟨⟨p, z⟩, hz, hrest⟩ := bind_eq_ok.1 h
        dsimp only at hrest
        split at hrest
        · cases hrest
        rename_i hp
        have hle : place ≤ p := Nat.le_of_succ_le (Nat.not_lt.1 hp)
        rwa [List.nil_append, orderedFields_cons hz hle]
    | @some e b hb =>
      rwa [List.singleton_append, orderedFields_cons ((hread x e _).2 ⟨b, hb, rfl⟩) (Nat.le_refl _)]

theorem orderedFields_end (hread : ∀ x e p y, read x e = .ok (p, y) → p < next) :
    orderedFields what read next x es = .ok y ↔ es = [] ∧ x = y := by
  cases es with
  | nil => simp [orderedFields]
  | cons e es =>
    refine iff_of_false (fun h ↦ ?_) (by simp)
    obtain ⟨⟨p, z⟩, hz, h⟩ := bind_eq_ok.1 h
    dsimp only at h
    rw [if_pos (hread x e p z hz)] at h
    cases h

/-- Elements that can be read, each for itself, are refused together for their order only. -/
theorem orderedFields_misplaced (h : ∀ e ∈ es, ∀ x, ∃ p y, read x e = .ok (p, y))
    (hn : ∀ y, orderedFields what read next x es ≠ .ok y) :
    FailsAs .invalidElementType (orderedFields what read next x es) := by
  induction es generalizing next x with
  | nil => exact absurd rfl (hn x)
  | cons e es ih =>
    obtain ⟨he, hes⟩ := List.forall_mem_cons.1 h
    obtain ⟨p, y, hy⟩ := he x
    rw [orderedFields, hy, ok_bind] at hn ⊢
    dsimp only at hn ⊢
    split
    · exact .of_error _
    · rename_i hp
      rw [if_neg hp] at hn
      exact ih hes hn

end

section

variable {first last : Tag} {readFirst : Element → Except DecodeError α}
  {readLast : Element → Except DecodeError β} {First : Element → α → Prop}
  {Last : Element → β → Prop}

theorem optionalField_perhaps {tag : Tag} {read : Element → Except DecodeError α}
    {Field : Element → α → Prop} (h : ∀ e x, e.tag = tag ∧ read e = .ok x ↔ Field e x)
    {o : Option α} :
    optionalField tag read es = .ok (o, rest) ↔
      ∃ front, es = front ++ rest ∧ Perhaps Field front o ∧
        (o = none → ∀ e ∈ rest.head?, e.tag ≠ tag) := by
  rw [optionalField_eq_ok_iff]
  constructor
  · rintro (⟨rfl, rfl, ht⟩ | ⟨e, x, rfl, rfl, ht, hx⟩)
    · exact ⟨[], rfl, .none, fun _ ↦ ht⟩
    · exact ⟨[e], rfl, .some ((h e x).1 ⟨ht, hx⟩), nofun⟩
  · rintro ⟨front, rfl, hf, ht⟩
    cases hf with
    | none => exact .inl ⟨rfl, rfl, ht rfl⟩
    | @some e x hx =>
      obtain ⟨he, hr⟩ := (h e x).2 hx
      exact .inr ⟨e, x, rfl, rfl, he, hr⟩

theorem optionalFields_perhaps (hf : ∀ e x, e.tag = first ∧ readFirst e = .ok x ↔ First e x)
    (hl : ∀ e x, e.tag = last ∧ readLast e = .ok x ↔ Last e x) (hne : last ≠ first)
    {a : Option α} {b : Option β} :
    optionalFields what first readFirst last readLast es = .ok (a, b) ↔
      ∃ xs ys, es = xs ++ ys ∧ Perhaps First xs a ∧ Perhaps Last ys b := by
  simp only [optionalFields_eq_ok_iff, optionalField_perhaps hf, optionalField_perhaps hl]
  constructor
  · rintro ⟨ys, ⟨xs, rfl, hx, -⟩, zs, rfl, hy, -⟩
    exact ⟨xs, zs, by rw [List.append_nil], hx, hy⟩
  · rintro ⟨xs, ys, rfl, hx, hy⟩
    refine ⟨ys, ⟨xs, rfl, hx, fun _ e he ↦ ?_⟩, ys, (List.append_nil ys).symm, hy, by simp⟩
    cases hy with
    | none => cases he
    | @some y b hb =>
      cases he
      exact fun ht ↦ hne (((hl _ b).2 hb).1.symm.trans ht)

theorem foldlM_takeField_misplaced (hne : last ≠ first)
    (h : ∀ e ∈ es, (∃ x, e.tag = first ∧ readFirst e = .ok x) ∨
      ∃ y, e.tag = last ∧ readLast e = .ok y) {fields : Option α × Option β}
    (hn : ∀ z, es.foldlM (takeField what first readFirst last readLast) fields ≠ .ok z) :
    FailsAs .invalidElementType
      (es.foldlM (takeField what first readFirst last readLast) fields) := by
  induction es generalizing fields with
  | nil => exact absurd rfl (hn fields)
  | cons e es ih =>
    obtain ⟨he, hes⟩ := List.forall_mem_cons.1 h
    rw [List.foldlM_cons] at hn ⊢
    cases ht : takeField what first readFirst last readLast fields e with
    | ok next =>
      rw [ht, ok_bind] at hn
      rw [ok_bind]
      exact ih hes hn
    | error err =>
      unfold takeField at ht
      split at ht
      · rename_i hc
        obtain ⟨x, -, hx⟩ | ⟨y, hl, -⟩ := he
        · rw [hx] at ht
          cases ht
        · exact absurd (hl.symm.trans hc.1) hne
      split at ht
      · rename_i hc
        obtain ⟨x, hf, -⟩ | ⟨y, -, hy⟩ := he
        · exact absurd (hc.1.symm.trans hf) hne
        · rw [hy] at ht
          cases ht
      · cases ht
        exact .of_error (unexpected e what)

end

end

end LdapCodec.Ber
