import LdapCodec.Oid
import LdapCodec.Proofs.Outcome
import LdapCodec.Proofs.Text.Decimal

namespace LdapCodec.Oid

open Decimal (digits value isNumber)

theorem kind_of_arc {part : List Char} {e : DecodeError} (h : arc part = .error e) :
    e.kind = .valueOutOfRange := by
  unfold arc at h
  dsimp only at h
  split at h
  · cases h
  · cases h
    rfl

theorem kind_of_mapM_arc {ps : List (List Char)} {e : DecodeError}
    (h : ps.mapM arc = .error e) : e.kind = .valueOutOfRange := by
  induction ps with
  | nil => cases h
  | cons p ps ih =>
    rw [List.mapM_cons] at h
    cases hp : arc p with
    | error e' =>
      rw [hp] at h
      cases h
      exact kind_of_arc hp
    | ok n =>
      rw [hp] at h
      cases hps : ps.mapM arc with
      | error e' =>
        rw [hps] at h
        cases h
        exact ih hps
      | ok ns =>
        rw [hps] at h
        cases h

theorem kind_of_parse {s : String} {e : DecodeError} (h : parse s = .error e) :
    e.kind = .valueOutOfRange := by
  unfold parse at h
  dsimp only at h
  split at h
  · cases h
    rfl
  · cases hm : (parts s.toList).mapM arc with
    | error e' =>
      rw [hm] at h
      cases h
      exact kind_of_mapM_arc hm
    | ok arcs =>
      rw [hm, ok_bind] at h
      split at h
      · split at h
        · cases h
          rfl
        · split at h
          · cases h
          · cases h
            rfl
      · cases h
        rfl

/-- One component of the text of an identifier: ASCII digits, of which the first is zero
only if it is the only one, for a number below 2^64. -/
structure Component (cs : List Char) : Prop where
  ne_nil : cs ≠ []
  digits : ∀ c ∈ cs, '0' ≤ c ∧ c ≤ '9'
  no_leading_zero : cs.head? = some '0' → cs = ['0']
  lt : value cs < 2 ^ 64

/-- The grammar of numeric identifiers: two or more components joined by single dots. The
numbers are those of the components. -/
inductive Spells : String → List Nat → Prop
  | intro {first second : List Char} {rest : List (List Char)}
      (hcomponents : ∀ cs ∈ first :: second :: rest, Component cs)
      (hfirst : value first ≤ 2) (hsecond : value first ≤ 1 → value second ≤ 39) :
      Spells (String.ofList (['.'].intercalate (first :: second :: rest)))
        ((first :: second :: rest).map value)

def dotted (ns : List Nat) : String := String.ofList (['.'].intercalate (ns.map digits))

theorem parts_eq_splitOn (cs : List Char) : parts cs = cs.splitOn '.' := by
  induction cs with
  | nil => rfl
  | cons c cs ih =>
    rw [parts, List.splitOn, List.splitOnP_cons_eq_if_modifyHead, ih]
    by_cases hc : c = '.'
    · rw [if_pos hc, if_pos (beq_iff_eq.2 hc)]
      rfl
    · rw [if_neg hc, if_neg (mt beq_iff_eq.1 hc)]
      cases hs : cs.splitOn '.' with
      | nil => exact absurd hs (List.splitOnP_ne_nil _ _)
      | cons p ps =>
        rw [List.splitOn] at hs
        rw [hs]
        rfl

theorem intercalate_parts (cs : List Char) : ['.'].intercalate (parts cs) = cs := by
  rw [parts_eq_splitOn, List.intercalate_splitOn]

section

variable {ps : List (List Char)} {arcs : List Nat} {s : String} {oid : Oid}

theorem component_iff {cs : List Char} :
    Component cs ↔ isNumber cs = true ∧ value cs < 2 ^ 64 := by
  rw [Decimal.isNumber_iff]
  simp only [Decimal.isDigit, Bool.and_eq_true, decide_eq_true_eq]
  constructor
  · rintro ⟨hn, hd, h0, hl⟩
    exact ⟨⟨hn, hd, h0⟩, hl⟩
  · rintro ⟨⟨hn, hd, h0⟩, hl⟩
    exact ⟨hn, hd, h0, hl⟩

theorem Component.dot_not_mem {cs : List Char} (h : Component cs) : '.' ∉ cs := fun hm ↦
  absurd (h.digits '.' hm) (by decide)

/-- Components hold no dots, so that they are found again between those that join them. -/
theorem parts_intercalate (hn : ps ≠ []) (h : ∀ cs ∈ ps, Component cs) :
    parts (['.'].intercalate ps) = ps := by
  rw [parts_eq_splitOn]
  exact List.splitOn_intercalate '.' (fun cs hcs ↦ (h cs hcs).dot_not_mem) hn

theorem map_digits_value (h : ∀ cs ∈ ps, Component cs) : (ps.map value).map digits = ps := by
  have hd : ∀ cs ∈ ps, (digits ∘ value) cs = id cs := fun cs hcs ↦
    Decimal.digits_value (component_iff.1 (h cs hcs)).1
  rw [List.map_map, List.map_congr_left hd, List.map_id]

theorem arc_eq_ok_iff {part : List Char} {n : Nat} :
    arc part = .ok n ↔ value part < 2 ^ 64 ∧ value part = n := by
  unfold arc
  dsimp only [UInt64.size]
  split
  · rename_i h
    simp [h]
  · rename_i h
    simp [h]

theorem mapM_arc_eq_ok_iff :
    ps.mapM arc = .ok arcs ↔ (∀ cs ∈ ps, value cs < 2 ^ 64) ∧ ps.map value = arcs := by
  simp only [mapM_eq_ok_iff, arc_eq_ok_iff, List.forall₂_and_left]
  rw [← List.forall₂_map_left_iff (f := value), List.forall₂_eq_eq_eq]

theorem exists_parts_of_parse (h : parse s = .ok ⟨arcs⟩) :
    ∃ first second rest, s = String.ofList (['.'].intercalate (first :: second :: rest)) ∧
      (∀ cs ∈ first :: second :: rest, Component cs) ∧
      (first :: second :: rest).map value = arcs ∧ value first ≤ 2 ∧
      (value first ≤ 1 → value second ≤ 39) := by
  unfold parse at h
  dsimp only at h
  split at h
  · cases h
  rename_i hn
  simp only [Bool.or_eq_true, decide_eq_true_eq, Bool.not_eq_true', not_or, Nat.not_lt,
    Bool.not_eq_false, List.all_eq_true] at hn
  obtain ⟨hlength, hnumbers⟩ := hn
  obtain ⟨ns, hns, h⟩ := bind_eq_ok.1 h
  obtain ⟨hlt, rfl⟩ := mapM_arc_eq_ok_iff.1 hns
  match hps : parts s.toList with
  | [] | [_] => simp [hps] at hlength
  | first :: second :: rest =>
    rw [hps] at h hnumbers hlt
    simp only [List.map_cons] at h
    split at h
    · cases h
    rename_i hsecond
    split at h
    · rename_i hfirst
      cases h
      have hs := intercalate_parts s.toList
      rw [hps] at hs
      refine ⟨first, second, rest, by rw [hs, String.ofList_toList],
        fun cs hcs ↦ component_iff.2 ⟨hnumbers cs hcs, hlt cs hcs⟩, rfl, hfirst, ?_⟩
      simpa using hsecond
    · cases h

theorem parse_intercalate {first second : List Char} {rest : List (List Char)}
    (hcomponents : ∀ cs ∈ first :: second :: rest, Component cs) (hfirst : value first ≤ 2)
    (hsecond : value first ≤ 1 → value second ≤ 39) :
    parse (String.ofList (['.'].intercalate (first :: second :: rest))) =
      .ok ⟨(first :: second :: rest).map value⟩ := by
  have hparts := parts_intercalate (List.cons_ne_nil first _) hcomponents
  have hnumbers : (first :: second :: rest).all isNumber = true :=
    List.all_eq_true.2 fun cs hcs ↦ (component_iff.1 (hcomponents cs hcs)).1
  have harcs : (first :: second :: rest).mapM arc = .ok ((first :: second :: rest).map value) :=
    mapM_arc_eq_ok_iff.2 ⟨fun cs hcs ↦ (hcomponents cs hcs).lt, rfl⟩
  unfold parse
  simp only [String.toList_ofList, hparts, hnumbers, harcs, ok_bind, List.map_cons]
  have hn : ¬(value first ≤ 1 ∧ 39 < value second) := by omega
  simp [hfirst, hn]

theorem parse_eq_ok_iff : parse s = .ok ⟨arcs⟩ ↔ Spells s arcs := by
  constructor
  · intro h
    obtain ⟨first, second, rest, rfl, hcomponents, rfl, hfirst, hsecond⟩ := exists_parts_of_parse h
    exact .intro hcomponents hfirst hsecond
  · rintro ⟨hcomponents, hfirst, hsecond⟩
    exact parse_intercalate hcomponents hfirst hsecond

/-- The numbers of a text give the text back. -/
theorem Spells.dotted_eq (h : Spells s arcs) : dotted arcs = s := by
  cases h with
  | intro hcomponents => rw [dotted, map_digits_value hcomponents]

/-- No component of a text that was parsed is passed over. -/
theorem Spells.components_eq (h : Spells s arcs) : components ⟨arcs⟩ = arcs := by
  have ht : text ⟨arcs⟩ = s := h.dotted_eq
  rw [components, ht]
  cases h with
  | @intro first second rest hcomponents =>
    have hparts := parts_intercalate (List.cons_ne_nil first _) hcomponents
    have harc : ∀ cs ∈ first :: second :: rest, (arc cs).toOption = (some ∘ value) cs := by
      intro cs hcs
      rw [arc_eq_ok_iff.2 ⟨(hcomponents cs hcs).lt, rfl⟩]
      rfl
    rw [String.toList_ofList, hparts, List.filterMap_congr harc, List.filterMap_eq_map]

end

/-- Exactly the texts of the grammar are parsed, and all others are refused for one reason.
What is kept of a text are the numbers of all its components, and these are enough to write
it again. -/
theorem parse_lossless (s : String) :
    ((∃ oid, parse s = .ok oid) ↔ ∃ ns, Spells s ns) ∧
    (∀ e, parse s = .error e → e.kind = .valueOutOfRange) ∧
    ∀ oid, parse s = .ok oid →
      Spells s oid.components ∧ oid.text = s ∧ dotted oid.components = s ∧
      ∀ s' oid', parse s' = .ok oid' →
        (oid.components = oid'.components ↔ oid.text = oid'.text) := by
  have hkept : ∀ s oid, parse s = .ok oid →
      Spells s oid.components ∧ oid.text = s ∧ dotted oid.components = s := by
    intro s oid h
    have hs : Spells s oid.arcs := parse_eq_ok_iff.1 h
    rw [show oid.components = oid.arcs from hs.components_eq]
    exact ⟨hs, hs.dotted_eq, hs.dotted_eq⟩
  refine ⟨⟨?_, ?_⟩, fun e ↦ kind_of_parse, fun oid h ↦ ?_⟩
  · rintro ⟨oid, h⟩
    exact ⟨oid.arcs, parse_eq_ok_iff.1 h⟩
  · rintro ⟨ns, h⟩
    exact ⟨⟨ns⟩, parse_eq_ok_iff.2 h⟩
  · obtain ⟨hspells, htext, hdotted⟩ := hkept s oid h
    refine ⟨hspells, htext, hdotted, fun s' oid' h' ↦ ?_⟩
    obtain ⟨-, htext', hdotted'⟩ := hkept s' oid' h'
    constructor
    · intro he
      rw [htext, htext', ← hdotted, ← hdotted', he]
    · intro he
      rw [components, components, he]

/-- An identifier with the largest arc, and texts that are off the grammar by one. -/
theorem parse_lossless_largest :
    let largest : Oid := ⟨[2, 40, 18446744073709551615]⟩
    (parse "2.40.18446744073709551615" = .ok largest ∧ largest.components = largest.arcs ∧
      dotted largest.components = "2.40.18446744073709551615") ∧
    ∀ s ∈ ["2.40.18446744073709551616", "1.40", "3.0", "2.01", "2", "2.", "2..1"],
      ∃ e, parse s = .error e ∧ e.kind = .valueOutOfRange := by
  intro largest
  have hl : parse "2.40.18446744073709551615" = .ok largest := by decide +kernel
  have hr : ∀ s ∈ ["2.40.18446744073709551616", "1.40", "3.0", "2.01", "2", "2.", "2..1"],
      (parse s).isOk = false := by decide +kernel
  obtain ⟨-, -, hkept⟩ := parse_lossless "2.40.18446744073709551615"
  obtain ⟨hspells, -, hdotted, -⟩ := hkept largest hl
  have harcs : Except.ok ⟨largest.components⟩ = Except.ok largest :=
    (parse_eq_ok_iff.2 hspells).symm.trans hl
  refine ⟨⟨hl, congrArg arcs (Except.ok.inj harcs), hdotted⟩, fun s hs ↦ ?_⟩
  have hn := hr s hs
  cases hp : parse s with
  | ok oid =>
    rw [hp] at hn
    cases hn
  | error e => exact ⟨e, rfl, (parse_lossless s).2.1 e hp⟩

end LdapCodec.Oid
