import LdapCodec.Json.Fields

namespace LdapCodec.Json

namespace Members

variable {key k : String} {v : Value} {text : Option String} {ms : Members}

@[simp]
theorem get?_insert :
    (insert key v ms).get? k = if k = key then some v else ms.get? k := by
  split
  · rename_i h
    rw [h, get?_insert_self]
  · rename_i h
    exact get?_insert_of_ne h v ms

@[simp]
theorem get?_insertText :
    (insertText key text ms).get? k =
      if k = key then (text.map .string).or (ms.get? k) else ms.get? k := by
  cases text <;> simp [insertText]

@[simp]
theorem mem_keys_insert : k ∈ (insert key v ms).keys ↔ k = key ∨ k ∈ ms.keys := by
  fun_induction insert key v ms with
  | case1 => simp [keys]
  | case2 => simp [keys]
  | case3 => simp [keys]
  | case4 k' w ms _ _ ih =>
    simp only [keys, List.map_cons, List.mem_cons] at ih ⊢
    rw [ih, or_left_comm]

theorem of_mem_keys_insertText (h : k ∈ (insertText key text ms).keys) :
    k = key ∨ k ∈ ms.keys := by
  cases text with
  | none => exact .inr h
  | some s => exact mem_keys_insert.1 h

theorem get?_eq_none_iff : ms.get? k = none ↔ k ∉ ms.keys := by
  induction ms with
  | nil => simp [get?, keys]
  | cons m ms ih =>
    obtain ⟨k', w⟩ := m
    simp only [keys] at ih
    by_cases hk : k' = k
    · simp [get?, keys, hk]
    · simp [get?, keys, hk, Ne.symm hk, ih]

theorem mem_of_get? (h : ms.get? k = some v) : (k, v) ∈ ms := by
  induction ms with
  | nil => cases h
  | cons m ms ih =>
    obtain ⟨k', w⟩ := m
    rw [get?] at h
    split at h
    · rename_i hk
      cases h
      rw [hk]
      exact List.mem_cons_self
    · exact List.mem_cons_of_mem _ (ih h)

theorem get?_filter (p : String → Bool) (k : String) (ms : Members) :
    Members.get? k (ms.filter fun m ↦ p m.1) = if p k then ms.get? k else none := by
  induction ms with
  | nil => exact (ite_self _).symm
  | cons m ms ih =>
    obtain ⟨k', w⟩ := m
    rw [List.filter_cons]
    by_cases hk : k' = k
    · subst hk
      cases hp : p k' <;> simp [get?, ih, hp]
    · cases p k' <;> simp [get?, ih, hk]

theorem unknown?_eq_head? (ms : Members) (allowed : List String) :
    ms.unknown? allowed = (keys (ms.filter (!allowed.contains ·.1))).head? := by
  rw [unknown?, ← List.head?_filter, keys, List.filter_map]
  rfl

namespace Ordered

variable {ms' : Members}

theorem nodup (h : ms.Ordered) : ms.Nodup := by
  refine List.Pairwise.imp (fun hlt he ↦ ?_) h
  rw [he] at hlt
  exact String.lt_irrefl _ hlt

theorem mem_iff (h : ms.Ordered) {m : String × Value} : m ∈ ms ↔ ms.get? m.1 = some m.2 := by
  refine ⟨fun hm ↦ ?_, mem_of_get?⟩
  induction ms with
  | nil => cases hm
  | cons first ms ih =>
    obtain ⟨hfirst, hms⟩ := List.pairwise_cons.1 h
    rcases List.mem_cons.1 hm with rfl | hm
    · exact if_pos rfl
    · have hne : first.1 ≠ m.1 := fun he ↦ String.lt_irrefl _ (he ▸ hfirst m hm)
      rw [get?, if_neg hne, ih hms hm]

/-- Ordered members are told by what is found under each key. -/
theorem ext (h : ms.Ordered) (h' : ms'.Ordered) (hg : ∀ k, ms.get? k = ms'.get? k) : ms = ms' := by
  have hperm : ms.Perm ms' := by
    rw [List.perm_ext_iff_of_nodup h.nodup h'.nodup]
    intro m
    rw [h.mem_iff, h'.mem_iff, hg]
  refine hperm.eq_of_pairwise (fun m m' _ _ hlt hlt' ↦ ?_) h h'
  exact absurd (String.lt_trans hlt hlt') (String.lt_irrefl _)

/-- Which key is the first unknown one is told by what is found under the unknown keys. -/
theorem unknown?_congr (h : ms.Ordered) (h' : ms'.Ordered) {allowed : List String}
    (hg : ∀ k ∉ allowed, ms.get? k = ms'.get? k) :
    ms.unknown? allowed = ms'.unknown? allowed := by
  have hsame : ms.filter (!allowed.contains ·.1) = ms'.filter (!allowed.contains ·.1) := by
    refine ext (h.filter _) (h'.filter _) fun k ↦ ?_
    rw [get?_filter (!allowed.contains ·), get?_filter (!allowed.contains ·)]
    by_cases hk : k ∈ allowed
    · simp [hk]
    · rw [hg k hk]
  rw [unknown?_eq_head?, unknown?_eq_head?, hsame]

end Ordered

theorem unknown?_eq_none_iff {allowed : List String} :
    ms.unknown? allowed = none ↔ ∀ k ∈ ms.keys, k ∈ allowed := by
  simp [unknown?, List.find?_eq_none]

theorem unknown?_insert {allowed : List String} (h : ms.unknown? allowed = none)
    (hk : key ∈ allowed) (v : Value) : (ms.insert key v).unknown? allowed = none := by
  rw [unknown?_eq_none_iff] at h ⊢
  intro k hm
  rcases mem_keys_insert.1 hm with rfl | hm
  · exact hk
  · exact h k hm

theorem unknown?_insertText {allowed : List String} (h : ms.unknown? allowed = none)
    (hk : key ∈ allowed) (text : Option String) :
    (ms.insertText key text).unknown? allowed = none := by
  cases text with
  | none => exact h
  | some s => exact unknown?_insert h hk _

section

variable {α : Type} (read : Value → Option α)

theorem required_eq (h : ms.get? key = some v) : ms.required read key = read v := by
  rw [required, h, Option.bind_some]

theorem defaulted_eq (default : α) (h : ms.get? key = some v) :
    ms.defaulted read default key = read v := by
  rw [defaulted, h]

theorem defaulted_eq_default (default : α) (h : ms.get? key = none) :
    ms.defaulted read default key = some default := by
  rw [defaulted, h]

theorem optional_eq (h : ms.get? key = some v) (hv : v ≠ .null) :
    ms.optional read key = (read v).map some := by
  unfold optional
  rw [h]
  split
  · contradiction
  · rename_i hn
    cases hn
    exact absurd rfl hv
  · rename_i hs
    cases hs
    rfl

theorem optional_eq_none (h : ms.get? key = none) : ms.optional read key = some none := by
  rw [optional, h]

theorem optional_map {β : Type} {write : β → Value} (value : β → α) {o : Option β}
    (h : ms.get? key = o.map write)
    (hw : ∀ b ∈ o, write b ≠ .null ∧ read (write b) = some (value b)) :
    ms.optional read key = some (o.map value) := by
  cases o with
  | none => exact optional_eq_none read h
  | some b => rw [optional_eq read h (hw b rfl).1, (hw b rfl).2, Option.map_some, Option.map_some]

theorem defaulted_map {write : α → Value} {o : Option α} (default : α)
    (h : ms.get? key = o.map write) (hw : ∀ a ∈ o, read (write a) = some a) :
    ms.defaulted read default key = some (o.getD default) := by
  cases o with
  | none => exact defaulted_eq_default read default h
  | some a => rw [defaulted_eq read default h, hw a rfl, Option.getD_some]

/-- What is read of an optional member was read of a value. -/
theorem of_optional {a : α} (h : ms.optional read key = some (some a)) :
    ∃ v, read v = some a := by
  unfold optional at h
  split at h
  · cases h
  · cases h
  · rename_i v _ _
    obtain ⟨b, hb, hs⟩ := Option.map_eq_some_iff.1 h
    cases hs
    exact ⟨v, hb⟩

end

theorem required_text {s : String} (h : ms.get? key = some (.string s)) :
    ms.required Value.asText? key = some s := required_eq _ h

theorem optional_text (h : ms.get? key = text.map .string) :
    ms.optional Value.asText? key = some text := by
  have ho := optional_map Value.asText? id h fun s _ ↦ ⟨by simp, rfl⟩
  rwa [Option.map_id_fun, id] at ho

theorem optional_of_required_text {s : String} (h : ms.required Value.asText? key = some s) :
    ms.optional Value.asText? key = some (some s) := by
  obtain ⟨v, hv, hs⟩ := Option.bind_eq_some_iff.1 h
  have hn : v ≠ .null := by
    rintro rfl
    cases hs
  rw [optional_eq _ hv hn, hs, Option.map_some]

/-- A text that may be missing is read only of a text. -/
theorem eq_some_iff_of_optional_text (h : ms.optional Value.asText? key = some text) (s : String) :
    text = some s ↔ ms.get? key = some (.string s) := by
  constructor
  · rintro rfl
    unfold optional at h
    split at h
    · cases h
    · cases h
    · rename_i v _ hv
      rw [hv]
      cases v with
      | string t =>
        cases h
        rfl
      | _ => cases h
  · intro hs
    have ht : ms.optional Value.asText? key = some (some s) := optional_text hs
    rw [ht] at h
    exact (Option.some.inj h).symm

end Members

namespace Value

@[simp]
theorem asTexts?_ofTexts (texts : List String) : (ofTexts texts).asTexts? = some texts := by
  simp only [ofTexts, asTexts?, asItems?, Option.bind_some]
  induction texts with
  | nil => rfl
  | cons s texts ih => simp [asText?, ih]

@[simp]
theorem asInt32?_ofInt (w : Int32) : (ofInt w.toInt).asInt32? = some w := Word.ofInt?_toInt w

theorem asInt64?_ofInt {v : Int} (hl : -0x8000000000000000 ≤ v) (hu : v < 0x8000000000000000) :
    (ofInt v).asInt64? = some v := by
  simp only [ofInt, asInt64?]
  rw [if_pos ⟨hl, hu⟩]

theorem eq_array_of_asItems? {v : Value} {items : List Value} (h : v.asItems? = some items) :
    v = .array items := by
  cases v with
  | array _ =>
    cases h
    rfl
  | _ => cases h

theorem eq_object_of_asMembers? {v : Value} {ms : Members} (h : v.asMembers? = some ms) :
    v = .object ms := by
  cases v with
  | object _ =>
    cases h
    rfl
  | _ => cases h

end Value

theorem Members.optional_int64 {ms : Members} {key : String} {w : Int32}
    (h : ms.get? key = some (.ofInt w.toInt)) :
    ms.optional Value.asInt64? key = some (some w.toInt) := by
  have hl := Int32.le_toInt w
  have hu := Int32.toInt_lt w
  rw [optional_eq _ h (by simp [Value.ofInt]), Value.asInt64?_ofInt (by omega) (by omega),
    Option.map_some]

theorem eq_object_of_checkFields {v : Value} {allowed : List String} {strict : Bool}
    {what : String} {ms : Members} (h : checkFields v allowed strict what = .ok ms) :
    v = .object ms := by
  unfold checkFields at h
  split at h
  · cases h
  · rename_i ms' hv
    have hms : ms' = ms := by
      split at h
      · split at h
        · cases h
        · exact Except.ok.inj h
      · exact Except.ok.inj h
    rw [Value.eq_object_of_asMembers? hv, hms]

def Value.member? (v : Value) (key : String) : Option Value := v.asMembers?.bind (·.get? key)

theorem decodeBase64_encode (bytes : Bytes) (what : String) :
    decodeBase64 (Base64.encode bytes) what = .ok bytes := by
  rw [decodeBase64, Base64.decode?_encode]

end LdapCodec.Json
