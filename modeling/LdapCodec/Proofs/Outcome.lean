import Mathlib.Data.List.Forall2
import LdapCodec.DecodeError

namespace LdapCodec

variable {ε α β : Type}

@[simp]
theorem ok_bind (a : α) (f : α → Except ε β) : (Except.ok a >>= f) = f a := rfl

theorem bind_eq_ok {x : Except ε α} {f : α → Except ε β} {b : β} :
    x >>= f = .ok b ↔ ∃ a, x = .ok a ∧ f a = .ok b := by
  cases x with
  | error e => simp [bind, Except.bind]
  | ok a => simp [bind, Except.bind]

theorem map_eq_ok {x : Except ε α} {f : α → β} {b : β} :
    x.map f = .ok b ↔ ∃ a, x = .ok a ∧ f a = b := by
  cases x with
  | error e => simp [Except.map]
  | ok a => simp [Except.map]

theorem map_eq_error {x : Except ε α} {f : α → β} {e : ε} : x.map f = .error e ↔ x = .error e := by
  cases x with
  | error e => simp [Except.map]
  | ok a => simp [Except.map]

theorem map_mapError {ε' : Type} (x : Except ε α) (f : α → β) (g : ε → ε') :
    (x.mapError g).map f = (x.map f).mapError g := by
  cases x with
  | error e => rfl
  | ok a => rfl

theorem mapError_eq_ok {ε' : Type} {x : Except ε α} {g : ε → ε'} {a : α} :
    x.mapError g = .ok a ↔ x = .ok a := by
  cases x with
  | error e => exact ⟨nofun, nofun⟩
  | ok b =>
    constructor
    · rintro ⟨⟩
      rfl
    · rintro ⟨⟩
      rfl

theorem ok_of_toOption {x : Except ε α} {a : α} (h : x.toOption = some a) : x = .ok a := by
  cases x with
  | error e => cases h
  | ok b =>
    cases h
    rfl

theorem ite_error_eq_ok_iff {p : Prop} [Decidable p] {e : ε} {a b : α} :
    (if p then .error e else .ok a) = Except.ok b ↔ ¬p ∧ a = b := by
  split <;> simp_all

/-- What a program can tell of an outcome: the result, or the kind of the failure. -/
def verdict (x : Except DecodeError α) : Except DecodeError.Kind α := x.mapError DecodeError.kind

theorem verdict_map (x : Except DecodeError α) (f : α → β) :
    verdict (x.map f) = (verdict x).map f := by
  cases x with
  | error e => rfl
  | ok a => rfl

theorem bind_ok_eq_map (x : Except ε α) (f : α → β) : (x >>= fun a ↦ .ok (f a)) = x.map f := by
  cases x with
  | error e => rfl
  | ok a => rfl

/-- Written items are read up to the first that is refused. -/
theorem mapM_map_eq_find? {read : β → Except ε α} {write : α → β} {refused : α → Bool}
    {error : α → ε} {xs : List α}
    (h : ∀ x ∈ xs, read (write x) = if refused x then .error (error x) else .ok x) :
    (xs.map write).mapM read = (xs.find? refused).elim (.ok xs) (.error <| error ·) := by
  induction xs with
  | nil => rfl
  | cons x xs ih =>
    obtain ⟨hx, hxs⟩ := List.forall_mem_cons.1 h
    rw [List.map_cons, List.mapM_cons, hx, ih hxs, List.find?_cons]
    cases hr : refused x with
    | true => rfl
    | false =>
      cases xs.find? refused with
      | none => rfl
      | some y => rfl

theorem option_mapM_eq_ok {f : α → Except ε α} {o : Option α} (h : ∀ a ∈ o, f a = .ok a) :
    o.mapM f = .ok o := by
  cases o with
  | none => rfl
  | some a =>
    rw [Option.mapM_some, h a rfl]
    rfl

theorem mapM_map_eq_ok {read : β → Except ε α} {write : α → β} {xs : List α}
    (h : ∀ x ∈ xs, read (write x) = .ok x) : (xs.map write).mapM read = .ok xs := by
  induction xs with
  | nil => rfl
  | cons x xs ih =>
    obtain ⟨hx, hxs⟩ := List.forall_mem_cons.1 h
    rw [List.map_cons, List.mapM_cons, hx, ih hxs]
    rfl

theorem mapM_map_eq_some {γ : Type} {read : β → Option γ} {write : α → β} {value : α → γ}
    {xs : List α} (h : ∀ x ∈ xs, read (write x) = some (value x)) :
    (xs.map write).mapM read = some (xs.map value) := by
  induction xs with
  | nil => rfl
  | cons x xs ih =>
    obtain ⟨hx, hxs⟩ := List.forall_mem_cons.1 h
    rw [List.map_cons, List.mapM_cons, hx, ih hxs]
    rfl

/-- Items are read one by one. -/
theorem mapM_eq_ok_iff {read : β → Except ε α} {ys : List β} {xs : List α} :
    ys.mapM read = .ok xs ↔ List.Forall₂ (fun y x ↦ read y = .ok x) ys xs := by
  induction ys generalizing xs with
  | nil =>
    rw [List.forall₂_nil_left_iff]
    exact ⟨fun h ↦ (Except.ok.inj h).symm, fun h ↦ congrArg Except.ok h.symm⟩
  | cons y ys ih =>
    rw [List.mapM_cons, List.forall₂_cons_left_iff, bind_eq_ok]
    constructor
    · rintro ⟨x, hx, h⟩
      obtain ⟨rest, hr, h⟩ := bind_eq_ok.1 h
      exact ⟨x, rest, hx, ih.1 hr, (Except.ok.inj h).symm⟩
    · rintro ⟨x, rest, hx, hr, rfl⟩
      exact ⟨x, hx, bind_eq_ok.2 ⟨rest, ih.2 hr, rfl⟩⟩

theorem length_of_mapM {read : β → Except ε α} {ys : List β} {xs : List α}
    (h : ys.mapM read = .ok xs) : xs.length = ys.length := (mapM_eq_ok_iff.1 h).length_eq.symm

theorem exists_of_mem_forall₂ {R : β → α → Prop} {ys : List β} {xs : List α}
    (h : List.Forall₂ R ys xs) {x : α} (hx : x ∈ xs) : ∃ y ∈ ys, R y x := by
  induction h with
  | nil => cases hx
  | @cons y _ ys _ hy _ ih =>
    rcases List.mem_cons.1 hx with rfl | hx
    · exact ⟨y, List.mem_cons_self, hy⟩
    · obtain ⟨z, hz, he⟩ := ih hx
      exact ⟨z, List.mem_cons_of_mem y hz, he⟩

end LdapCodec
