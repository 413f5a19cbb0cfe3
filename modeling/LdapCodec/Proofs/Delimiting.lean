import LdapCodec.Proofs.Grammar

namespace LdapCodec.OperationResult

open Ber

variable {r : OperationResult} {es cs rest : List Element}

theorem length_toComponents (r : OperationResult) :
    r.toComponents.length = 3 ↔ r.referrals = [] := by
  rw [toComponents]
  split <;> simp_all

theorem ofComponents_toComponents_iff :
    ofComponents (r.toComponents ++ rest) = .ok (r.withoutEmptyTexts, rest) ↔
      r.referrals ≠ [] ∨ ∀ e ∈ rest.head?, e.tag ≠ referralTag := by
  rw [← Decidable.imp_iff_not_or]
  constructor
  · intro h hr
    obtain ⟨cs, hcs, -, hrest⟩ := ofComponents_eq_ok_iff.1 h
    rw [← List.append_cancel_right hcs] at hrest
    exact hrest (r.length_toComponents.2 hr)
  · intro hr
    rw [← toComponents_withoutEmptyTexts]
    exact ofComponents_toComponents (nonempty_ne _) (nonempty_ne _) hr

/-- The elements of a result are four if the fourth is the one of referrals. -/
theorem Follows.length_eq_four_iff {Code Url : Tag → Prop} (h : Follows Code Url cs r)
    (hr : cs.length = 3 → ∀ e ∈ rest.head?, e.tag ≠ referralTag) :
    cs.length = 4 ↔ ∃ e, (cs ++ rest)[3]? = some e ∧ e.tag = referralTag := by
  cases h with
  | @intro code digits w matchedDn diagnostic referral urls hcode hdigits hvalue hurls =>
    cases referral with
    | some us => exact iff_of_true rfl ⟨.ofChildren referralTag us, rfl, rfl⟩
    | none =>
      refine iff_of_false (by simp) ?_
      rintro ⟨e, he, ht⟩
      exact hr rfl e (List.head?_eq_getElem?.trans he) ht

/-- The elements of a result say themselves where they end. What was written is read back in front
of anything but an element that a result without referrals would take for them. What is read takes
three elements, or four if the fourth has the tag of referrals, and is the same in front of
anything else, with the same proviso. -/
theorem components_self_delimiting :
    (∀ (r : OperationResult) (rest : List Element),
      ofComponents (r.toComponents ++ rest) = .ok (r.withoutEmptyTexts, rest) ↔
        r.referrals ≠ [] ∨ ∀ e ∈ rest.head?, e.tag ≠ referralTag) ∧
    ∀ (es rest : List Element) (r : OperationResult), ofComponents es = .ok (r, rest) →
      let k := es.length - rest.length
      rest = es.drop k ∧ (k = 3 ∨ k = 4) ∧
      (k = 4 ↔ ∃ e, es[3]? = some e ∧ e.tag = referralTag) ∧
      ∀ other, ofComponents (es.take k ++ other) = .ok (r, other) ↔
        (k = 3 → ∀ e ∈ other.head?, e.tag ≠ referralTag) := by
  refine ⟨fun r rest ↦ ofComponents_toComponents_iff, ?_⟩
  intro es rest r h k
  obtain ⟨cs, rfl, hfollows, hrest⟩ := ofComponents_eq_ok_iff.1 h
  have hk : k = cs.length := by simp [k]
  rw [hk, List.drop_left, List.take_left]
  refine ⟨rfl, hfollows.length_eq, hfollows.length_eq_four_iff hrest, fun other ↦ ⟨?_, ?_⟩⟩
  · intro hother
    obtain ⟨cs', hcs, -, hproviso⟩ := ofComponents_eq_ok_iff.1 hother
    rwa [← List.append_cancel_right hcs] at hproviso
  · intro hproviso
    exact ofComponents_eq_ok_iff.2 ⟨cs, rfl, hfollows, hproviso⟩

/-- An empty list of referrals, which is taken, but is not written again. -/
theorem components_self_delimiting_empty :
    let referral : Element := (Element.sequence []).context 3
    let name : Element := (Element.text "1.2").context 10
    let es : List Element := [.enumerated 10, .text "dc=x", .text "", referral, name]
    let r : OperationResult := ⟨⟨10⟩, some "dc=x", none, []⟩
    ofComponents es = .ok (r, [name]) ∧
    (∀ other, ofComponents (es.take 4 ++ other) = .ok (r, other)) ∧
    ofComponents (r.toComponents ++ [name]) = .ok (r, [name]) ∧
    ofComponents (r.toComponents ++ [referral]) ≠ .ok (r, [referral]) := by
  intro referral name es r
  obtain ⟨hwritten, hread⟩ := components_self_delimiting
  have hes : ofComponents es = .ok (r, [name]) := by decide +kernel
  obtain ⟨-, -, -, hother⟩ := hread es [name] r hes
  refine ⟨hes, fun other ↦ (hother other).2 fun hk ↦ absurd hk (by decide),
    (hwritten r [name]).2 (.inr ?_), fun h ↦ ?_⟩
  · rintro e ⟨⟩
    decide
  · rcases (hwritten r [referral]).1 h with hr | hr
    · exact hr rfl
    · exact hr referral rfl rfl

end LdapCodec.OperationResult
