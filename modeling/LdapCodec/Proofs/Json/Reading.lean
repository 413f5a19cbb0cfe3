import LdapCodec.Json.Fields
import LdapCodec.Proofs.Json.Text

namespace LdapCodec.Json

namespace Value

inductive HasDouble : Value → Prop
  | number (x : Float) : HasDouble (.number (.float x))
  | array {items : List Value} {x : Value} (hx : x ∈ items) (h : HasDouble x) :
      HasDouble (.array items)
  | object {members : Members} {m : String × Value} (hm : m ∈ members) (h : HasDouble m.2) :
      HasDouble (.object members)

@[simp]
theorem not_hasDouble_null : ¬null.HasDouble := by
  rintro ⟨⟩

@[simp]
theorem not_hasDouble_bool (b : Bool) : ¬(bool b).HasDouble := by
  rintro ⟨⟩

@[simp]
theorem not_hasDouble_string (s : String) : ¬(string s).HasDouble := by
  rintro ⟨⟩

theorem hasDouble_array_iff {items : List Value} :
    (array items).HasDouble ↔ ∃ x ∈ items, x.HasDouble :=
  ⟨fun | .array hx h => ⟨_, hx, h⟩, fun ⟨_, hx, h⟩ ↦ .array hx h⟩

theorem hasDouble_object_iff {members : Members} :
    (object members).HasDouble ↔ ∃ m ∈ members, m.2.HasDouble :=
  ⟨fun | .object hm h => ⟨_, hm, h⟩, fun ⟨_, hm, h⟩ ↦ .object hm h⟩

mutual

def decideHasDouble : (v : Value) → Decidable v.HasDouble
  | null => isFalse nofun
  | bool _ => isFalse nofun
  | number (.int _) => isFalse nofun
  | number (.float x) => isTrue (.number x)
  | string _ => isFalse nofun
  | array items => @decidable_of_iff _ _ hasDouble_array_iff.symm (decideItems items)
  | object members => @decidable_of_iff _ _ hasDouble_object_iff.symm (decideMembers members)

def decideItems : (xs : List Value) → Decidable (∃ x ∈ xs, x.HasDouble)
  | [] => isFalse nofun
  | x :: xs =>
    have := decideHasDouble x
    have := decideItems xs
    decidable_of_iff (x.HasDouble ∨ ∃ y ∈ xs, y.HasDouble) (List.exists_mem_cons_iff ..).symm

def decideMembers : (ms : Members) → Decidable (∃ m ∈ ms, m.2.HasDouble)
  | [] => isFalse nofun
  | (k, x) :: ms =>
    have := decideHasDouble x
    have := decideMembers ms
    decidable_of_iff (x.HasDouble ∨ ∃ m ∈ ms, m.2.HasDouble)
      (List.exists_mem_cons_iff (fun m ↦ m.2.HasDouble) (k, x) ms).symm

end

instance : DecidablePred HasDouble := decideHasDouble

/-- Values as a program holds them, of no more than some depth. There may be doubles among
them. -/
inductive Sound : Nat → Value → Prop
  | null {d : Nat} : Sound d .null
  | bool {d : Nat} (b : Bool) : Sound d (.bool b)
  | int {d : Nat} {v : Int} (hl : -0x8000000000000000 ≤ v) (hu : v < 0x10000000000000000) :
      Sound d (.number (.int v))
  | float {d : Nat} (x : Float) : Sound d (.number (.float x))
  | string {d : Nat} (s : String) : Sound d (.string s)
  | array {d : Nat} {items : List Value} (hi : ∀ x ∈ items, Sound d x) :
      Sound (d + 1) (.array items)
  | object {d : Nat} {members : Members} (hk : members.Ordered)
      (hm : ∀ m ∈ members, Sound d m.2) : Sound (d + 1) (.object members)

namespace Sound

variable {d : Nat} {v : Value}

theorem depth_le (h : v.Sound d) : v.depth ≤ d := by
  induction h with
  | null | bool | int | float | string => exact Nat.zero_le _
  | array _ ih =>
    rw [Value.depth, Nat.add_comm]
    exact Nat.succ_le_succ (depthItems_le_iff.2 ih)
  | object _ _ ih =>
    rw [Value.depth, Nat.add_comm]
    exact Nat.succ_le_succ (depthMembers_le_iff.2 ih)

/-- Only the depth that a value has counts. -/
theorem of_depth_le (h : v.Sound d) {d' : Nat} (hd : v.depth ≤ d') : v.Sound d' := by
  induction h generalizing d' with
  | null => exact .null
  | bool b => exact .bool b
  | int hl hu => exact .int hl hu
  | float x => exact .float x
  | string s => exact .string s
  | array _ ih =>
    rw [Value.depth, Nat.add_comm] at hd
    obtain ⟨k, rfl, hk⟩ := exists_succ_of_lt hd
    exact .array fun x hx ↦ ih x hx (depthItems_le_iff.1 hk x hx)
  | object hp _ ih =>
    rw [Value.depth, Nat.add_comm] at hd
    obtain ⟨k, rfl, hk⟩ := exists_succ_of_lt hd
    exact .object hp fun m hm ↦ ih m hm (depthMembers_le_iff.1 hk m hm)

theorem mono (h : v.Sound d) {d' : Nat} (hd : d ≤ d') : v.Sound d' :=
  h.of_depth_le (Nat.le_trans h.depth_le hd)

theorem exact (h : v.Sound d) (hn : ¬v.HasDouble) : v.Exact := by
  induction h with
  | null => exact .null
  | bool b => exact .bool b
  | int hl hu => exact .int hl hu
  | float x => exact absurd (.number x) hn
  | string s => exact .string s
  | array _ ih => exact .array fun x hx ↦ ih x hx fun hd ↦ hn (.array hx hd)
  | object hk _ ih => exact .object hk fun m hm ↦ ih m hm fun hd ↦ hn (.object hm hd)

theorem of_mem_array {items : List Value} (h : (Value.array items).Sound (d + 1)) :
    ∀ x ∈ items, x.Sound d := by
  cases h with
  | array hi => exact hi

theorem of_mem_object {members : Members} (h : (Value.object members).Sound (d + 1)) :
    ∀ m ∈ members, m.2.Sound d := by
  cases h with
  | object _ hm => exact hm

theorem number {l : Literal} {n : Number} (h : Number.ofLiteral? l = some n) :
    (number n).Sound d := by
  cases n with
  | float x => exact .float x
  | int v =>
    have hf : ∀ x : Option Float, x.map Number.float ≠ some (.int v) := by
      intro x hx
      obtain ⟨y, _, hy⟩ := Option.map_eq_some_iff.1 hx
      cases hy
    unfold Number.ofLiteral? at h
    dsimp only at h
    split at h
    · split at h
      · have hs : UInt64.size = 0x10000000000000000 := rfl
        cases h
        exact .int (by omega) (by omega)
      · split at h
        · cases h
          exact .int (by omega) (by omega)
        · exact absurd h (hf _)
    · exact absurd h (hf _)

end Sound

mutual

theorem sound_of_ofTree? : ∀ (t : Tree) (v : Value), ofTree? t = some v → v.Sound t.depth
  | .null, v, h => by
    cases h
    exact .null
  | .bool b, v, h => by
    cases h
    exact .bool b
  | .number l, v, h => by
    obtain ⟨n, hn, rfl⟩ := Option.map_eq_some_iff.1 h
    exact .number hn
  | .string ps, v, h => by
    obtain ⟨s, _, rfl⟩ := Option.map_eq_some_iff.1 h
    exact .string s
  | .array ts, v, h => by
    obtain ⟨vs, hvs, rfl⟩ := Option.map_eq_some_iff.1 h
    rw [Tree.depth, Nat.add_comm]
    exact .array (sound_of_ofItems? ts vs hvs)
  | .object ts, v, h => by
    obtain ⟨ms, hms, rfl⟩ := Option.map_eq_some_iff.1 h
    obtain ⟨hk, hm⟩ := sound_of_ofMembers? ts [] ms (Tree.depthMembers ts) .nil (by simp)
      (Nat.le_refl _) hms
    rw [Tree.depth, Nat.add_comm]
    exact .object hk hm

theorem sound_of_ofItems? : ∀ (ts : List Tree) (vs : List Value), ofItems? ts = some vs →
    ∀ v ∈ vs, v.Sound (Tree.depthItems ts)
  | [], vs, h => by
    cases h
    simp
  | t :: ts, vs, h => by
    obtain ⟨v, hv, h⟩ := Option.bind_eq_some_iff.1 h
    obtain ⟨us, hus, h⟩ := Option.bind_eq_some_iff.1 h
    cases h
    have hd : Tree.depthItems (t :: ts) = max t.depth (Tree.depthItems ts) := by
      rw [Tree.depthItems]
    refine List.forall_mem_cons.2 ⟨(sound_of_ofTree? t v hv).mono (by omega), fun u hu ↦ ?_⟩
    exact (sound_of_ofItems? ts us hus u hu).mono (by omega)

theorem sound_of_ofMembers? : ∀ (ts : List (List Piece × Tree)) (acc ms : Members) (d : Nat),
    acc.Ordered → (∀ m ∈ acc, m.2.Sound d) → Tree.depthMembers ts ≤ d →
    ofMembers? acc ts = some ms → ms.Ordered ∧ ∀ m ∈ ms, m.2.Sound d
  | [], acc, ms, d, hk, ha, _, h => by
    cases h
    exact ⟨hk, ha⟩
  | (k, t) :: ts, acc, ms, d, hk, ha, hd, h => by
    obtain ⟨key, _, h⟩ := Option.bind_eq_some_iff.1 h
    obtain ⟨v, hv, h⟩ := Option.bind_eq_some_iff.1 h
    rw [Tree.depthMembers, Nat.max_le] at hd
    refine sound_of_ofMembers? ts (acc.insert key v) ms d (hk.insert key v)
      (fun m hm ↦ ?_) hd.2 h
    rcases Members.mem_insert hm with rfl | hm
    · exact (sound_of_ofTree? t v hv).mono hd.1
    · exact ha m hm

end

theorem sound_of_read? {text : String} {v : Value} (h : read? text = some v) :
    v.Sound maxDepth := by
  obtain ⟨t, _, h⟩ := Option.bind_eq_some_iff.1 h
  split at h
  · rename_i hd
    exact (sound_of_ofTree? t v h).mono hd
  · cases h

end Value

namespace Members

structure Sound (d : Nat) (ms : Members) : Prop where
  ordered : ms.Ordered
  values : ∀ m ∈ ms, m.2.Sound d

variable {d : Nat} {key : String} {v : Value} {ms : Members}

theorem Sound.nil : Sound d [] := ⟨.nil, List.forall_mem_nil _⟩

theorem Sound.singleton (hv : v.Sound d) : Sound d [(key, v)] :=
  ⟨List.pairwise_singleton _ _, List.forall_mem_singleton.2 hv⟩

theorem Sound.insert (h : ms.Sound d) (key : String) (hv : v.Sound d) :
    (ms.insert key v).Sound d := by
  refine ⟨h.ordered.insert key v, fun m hm ↦ ?_⟩
  rcases mem_insert hm with rfl | hm
  · exact hv
  · exact h.values m hm

theorem Sound.insertText (h : ms.Sound d) (key : String) (text : Option String) :
    (ms.insertText key text).Sound d := by
  cases text with
  | none => exact h
  | some s => exact h.insert key (.string s)

theorem Sound.object (h : ms.Sound d) : (Value.object ms).Sound (d + 1) :=
  .object h.ordered h.values

end Members

theorem Value.sound_ofTexts (d : Nat) (texts : List String) : (ofTexts texts).Sound (d + 1) := by
  refine .array fun x hx ↦ ?_
  obtain ⟨s, _, rfl⟩ := List.mem_map.1 hx
  exact .string s

theorem Value.sound_ofInt (d : Nat) (w : Int32) : (ofInt w.toInt).Sound d := by
  have hl := Int32.le_toInt w
  have hu := Int32.toInt_lt w
  exact .int (by omega) (by omega)

end LdapCodec.Json
