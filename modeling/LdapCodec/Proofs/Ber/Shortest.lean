import Mathlib.Data.List.Induction
import LdapCodec.Proofs.Ber.Grammar

namespace LdapCodec

/-- Of all octets with a property, `s` are fewer than any others. -/
def Shortest (P : Bytes → Prop) (s : Bytes) : Prop :=
  ∀ b, P b → s.length ≤ b.length ∧ (b.length = s.length → b = s)

namespace Shortest

variable {P Q : Bytes → Prop} {s : Bytes}

theorem nil : Shortest P [] := by
  intro b _
  exact ⟨Nat.zero_le b.length, List.eq_nil_of_length_eq_zero⟩

theorem cons {a : UInt8} (h : Shortest P s) (hq : ∀ b, Q b → ∃ rest, b = a :: rest ∧ P rest) :
    Shortest Q (a :: s) := by
  intro b hb
  obtain ⟨rest, rfl, hp⟩ := hq b hb
  obtain ⟨hl, he⟩ := h rest hp
  simp only [List.length_cons]
  refine ⟨by omega, fun hlen ↦ ?_⟩
  rw [he (by omega)]

theorem concat {d : UInt8} (h : Shortest P s) (hq : ∀ b, Q b → ∃ init, b = init ++ [d] ∧ P init) :
    Shortest Q (s ++ [d]) := by
  intro b hb
  obtain ⟨init, rfl, hp⟩ := hq b hb
  obtain ⟨hl, he⟩ := h init hp
  simp only [List.length_append, List.length_singleton]
  refine ⟨by omega, fun hlen ↦ ?_⟩
  rw [he (by omega)]

end Shortest

namespace Bytes

theorem ofNat_zero : ofNat 0 = [] := by rw [ofNat, if_pos rfl]

theorem ofNat_of_ne_zero {n : Nat} (h : n ≠ 0) :
    ofNat n = ofNat (n / 256) ++ [UInt8.ofNat (n % 256)] := by
  rw [ofNat, if_neg h]

theorem ofNat_shortest (n : Nat) : Shortest (fun ds ↦ toNat ds = n) (ofNat n) := by
  induction n using Nat.strongRecOn with
  | ind n ih =>
    by_cases hn : n = 0
    · rw [hn, ofNat_zero]
      exact .nil
    · rw [ofNat_of_ne_zero hn]
      apply (ih (n / 256) (by omega)).concat
      intro ds h
      obtain rfl | ⟨init, d, rfl⟩ := List.eq_nil_or_concat' ds
      · exact absurd h.symm hn
      · have hd := d.toNat_lt
        rw [toNat_concat] at h
        refine ⟨init, ?_, by omega⟩
        rw [show n % 256 = d.toNat by omega, UInt8.ofNat_toNat]

theorem length_ofNat_mono {m n : Nat} (h : m ≤ n) : (ofNat m).length ≤ (ofNat n).length := by
  induction n using Nat.strongRecOn generalizing m with
  | ind n ih =>
    by_cases hm : m = 0
    · simp [hm, ofNat_zero]
    · have hd : (ofNat (m / 256)).length ≤ (ofNat (n / 256)).length :=
        ih (n / 256) (by omega) (by omega)
      rw [ofNat_of_ne_zero hm, ofNat_of_ne_zero (show n ≠ 0 by omega)]
      simp only [List.length_append, List.length_singleton]
      omega

theorem toNat_lt (ds : Bytes) : toNat ds < 256 ^ ds.length := by
  induction ds using List.reverseRecOn with
  | nil => simp
  | append_singleton ds d ih =>
    have hd := d.toNat_lt
    rw [toNat_concat, List.length_append, List.length_singleton, Nat.pow_succ]
    omega

end Bytes

namespace Ber

namespace Tag

theorem groupsValue_concat (n : Nat) (gs : Bytes) (g : UInt8) :
    groupsValue n (gs ++ [g]) = groupsValue n gs * 128 + g.toNat % 128 := by
  simp [groupsValue, List.foldl_append]

theorem highGroups_zero : highGroups 0 = [] := by rw [highGroups, if_pos rfl]

theorem highGroups_of_ne_zero {n : Nat} (h : n ≠ 0) :
    highGroups n = highGroups (n / 128) ++ [UInt8.ofNat (128 + n % 128)] := by
  rw [highGroups, if_neg h]

theorem highGroups_shortest (n : Nat) :
    Shortest (fun gs ↦ (∀ g ∈ gs, 128 ≤ g.toNat) ∧ groupsValue 0 gs = n) (highGroups n) := by
  induction n using Nat.strongRecOn with
  | ind n ih =>
    by_cases hn : n = 0
    · rw [hn, highGroups_zero]
      exact .nil
    · rw [highGroups_of_ne_zero hn]
      apply (ih (n / 128) (by omega)).concat
      intro gs hgs
      obtain ⟨hc, h⟩ := hgs
      obtain rfl | ⟨init, g, rfl⟩ := List.eq_nil_or_concat' gs
      · exact absurd h.symm hn
      · have hg := hc g (by simp)
        have hg' := g.toNat_lt
        rw [groupsValue_concat] at h
        refine ⟨init, ?_, fun x hx ↦ hc x (by simp [hx]), by omega⟩
        rw [show 128 + n % 128 = g.toNat by omega, UInt8.ofNat_toNat]

end Tag

theorem IsGroups.exists_last {gs : Bytes} (h : IsGroups gs) :
    ∃ init last, gs = init ++ [last] ∧ (∀ g ∈ init, 128 ≤ g.toNat) ∧ last.toNat < 128 := by
  induction h with
  | @last b hb => exact ⟨[], b, rfl, by simp, hb⟩
  | @more b gs hb hg ih =>
    obtain ⟨init, last, rfl, hi, hl⟩ := ih
    exact ⟨b :: init, last, rfl, List.forall_mem_cons.2 ⟨hb, hi⟩, hl⟩

namespace Tag

theorem groups_shortest (n : Nat) :
    Shortest (fun gs ↦ IsGroups gs ∧ groupsValue 0 gs = n) (groups n) := by
  apply (highGroups_shortest (n / 128)).concat
  intro gs hgs
  obtain ⟨hg, h⟩ := hgs
  obtain ⟨init, last, rfl, hi, hl⟩ := hg.exists_last
  rw [groupsValue_concat] at h
  refine ⟨init, ?_, hi, by omega⟩
  rw [show n % 128 = last.toNat by omega, UInt8.ofNat_toNat]

theorem encode_shortest (tag : Tag) : Shortest tag.SpelledBy tag.encode := by
  unfold encode
  split
  · intro id h
    cases h with
    | low hn => exact ⟨Nat.le_refl _, fun _ ↦ rfl⟩
    | high hg hv =>
      obtain ⟨init, last, rfl, _, _⟩ := hg.exists_last
      simp
  · rename_i hn
    apply (groups_shortest tag.number.toNat).cons
    intro id h
    cases h with
    | low hn' => exact absurd hn' hn
    | @high gs hg hv => exact ⟨gs, rfl, hg, hv⟩

end Tag

namespace Length

theorem octets_shortest (n : Nat) : Shortest (IsLength · n) (octets n) := by
  intro size h
  cases h with
  | @short b hb =>
    rw [octets, if_pos hb, UInt8.ofNat_toNat]
    exact ⟨Nat.le_refl _, fun _ ↦ rfl⟩
  | @long mark ds hm hp hl =>
    have hpos := List.length_pos_iff.2 hp
    rw [octets]
    split
    · simp only [List.length_cons, List.length_nil]
      exact ⟨by omega, fun heq ↦ by omega⟩
    · obtain ⟨hlen, he⟩ := Bytes.ofNat_shortest _ ds rfl
      simp only [List.length_cons]
      refine ⟨by omega, fun heq ↦ ?_⟩
      rw [← he (by omega), longMark, Nat.min_eq_left (by omega), ← hm, UInt8.ofNat_toNat]

theorem length_octets_mono {m n : Nat} (h : m ≤ n) : (octets m).length ≤ (octets n).length := by
  have hl := Bytes.length_ofNat_mono h
  unfold octets
  split
  · split <;> simp
  · rw [if_neg (by omega)]
    simp only [List.length_cons]
    omega

end Length

namespace Integer

theorem octets_shortest (v : Int) : Shortest (fun ds ↦ ds ≠ [] ∧ value ds = v) (octets v) := by
  fun_induction octets v with
  | case1 v hv =>
    intro ds hds
    obtain ⟨hn, h⟩ := hds
    refine ⟨List.length_pos_iff.2 hn, fun hlen ↦ ?_⟩
    obtain ⟨d, rfl⟩ := List.length_eq_one_iff.1 hlen
    have hd := d.toNat_lt
    rw [value_singleton] at h
    rw [show (v % 256).toNat = d.toNat by split at h <;> omega, UInt8.ofNat_toNat]
  | case2 v hv ih =>
    apply ih.concat
    intro ds hds
    obtain ⟨hn, h⟩ := hds
    obtain rfl | ⟨init, d, rfl⟩ := List.eq_nil_or_concat' ds
    · exact absurd rfl hn
    · have hd := d.toNat_lt
      by_cases hi : init = []
      · rw [hi, List.nil_append, value_singleton] at h
        split at h <;> omega
      · rw [value_concat hi] at h
        refine ⟨init, ?_, hi, by omega⟩
        rw [show (v % 256).toNat = d.toNat by omega, UInt8.ofNat_toNat]

end Integer

theorem IsLength.lt {size : Bytes} {n : Nat} (h : IsLength size n) : n < 2 ^ 32 := by
  cases h with
  | short hb => omega
  | @long mark ds hm hp hl =>
    have hn := Bytes.toNat_lt ds
    have h4 : 256 ^ ds.length ≤ 256 ^ 4 := Nat.pow_le_pow_right (by omega) hl
    omega

/-- Fewer octets of content also take no more octets for their length. -/
theorem tlv_shortest {tag : Tag} {id size content body : Bytes} (hid : tag.SpelledBy id)
    (hs : IsLength size body.length)
    (hc : content.length ≤ body.length ∧ (body.length = content.length → body = content)) :
    (tlv tag content).length ≤ (id ++ size ++ body).length ∧
      ((id ++ size ++ body).length = (tlv tag content).length →
        id ++ size ++ body = tlv tag content) := by
  obtain ⟨htag, hid⟩ := tag.encode_shortest id hid
  obtain ⟨hlength, hsize⟩ := Length.octets_shortest body.length size hs
  obtain ⟨hcontent, hbody⟩ := hc
  have hmono := Length.length_octets_mono hcontent
  simp only [tlv, List.length_append]
  refine ⟨by omega, fun heq ↦ ?_⟩
  have hb : body = content := hbody (by omega)
  have hi : id = tag.encode := hid (by omega)
  have hz : size = Length.octets content.length := by
    rw [hb] at hsize heq hmono hlength
    exact hsize (by omega)
  rw [hi, hz, hb]

namespace Element

theorem encodeAll_shortest {parts : List Bytes} {children : List Element}
    (hp : List.Forall₂ Spells parts children)
    (h : ∀ e ∈ children, Shortest (Spells · e) e.encode) :
    (encodeAll children).length ≤ parts.flatten.length ∧
      (parts.flatten.length = (encodeAll children).length →
        parts.flatten = encodeAll children) := by
  induction hp with
  | nil => simp [encodeAll]
  | @cons part e parts children hpe hps ih =>
    obtain ⟨he, hes⟩ := List.forall_mem_cons.1 h
    obtain ⟨hl, hpart⟩ := he part hpe
    obtain ⟨hls, hparts⟩ := ih hes
    rw [encodeAll, List.flatten_cons]
    simp only [List.length_append]
    refine ⟨by omega, fun heq ↦ ?_⟩
    rw [hpart (by omega), hparts (by omega)]

/-- What is written for an element is shorter than all other octets that stand for it. -/
theorem encode_shortest (e : Element) : Shortest (Spells · e) e.encode := by
  induction e using induction with
  | primitive cls number content =>
    intro part h
    cases h with
    | primitive hid hs =>
      rw [encode]
      exact tlv_shortest hid hs ⟨Nat.le_refl _, fun _ ↦ rfl⟩
  | constructed cls number children ih =>
    intro part h
    cases h with
    | constructed hid hs hp =>
      rw [encode]
      exact tlv_shortest hid hs (encodeAll_shortest hp ih)

theorem length_content_lt_of_spells {e : Element} {part : Bytes} (h : Spells part e) :
    e.content.length < 2 ^ 32 := by
  cases h with
  | primitive hid hs => exact hs.lt
  | constructed hid hs hp =>
    exact Nat.lt_of_le_of_lt (encodeAll_shortest hp fun e _ ↦ e.encode_shortest).1 hs.lt

def canonical (bytes : Bytes) : Except DecodeError Bytes := (decode bytes).map encode

/-- Of all octets that are read as an element, those written for it are the only shortest. To
read and to write again therefore settles on them at once, and never takes more octets. -/
theorem encode_unique_shortest {bytes : Bytes} {e : Element} (h : decode bytes = .ok e) :
    decode e.encode = .ok e ∧ e.encode.length ≤ bytes.length ∧
    (e.encode.length = bytes.length → bytes = e.encode) ∧
    canonical bytes = .ok e.encode ∧ canonical e.encode = .ok e.encode ∧
    (∀ other, decode other = .ok e → (∀ bs, decode bs = .ok e → other.length ≤ bs.length) →
      other = e.encode) := by
  obtain ⟨hd, hs⟩ := decode_eq_ok_iff.1 h
  have hback : decode e.encode = .ok e := by
    rw [decode_encode (length_content_lt_of_spells hs)]
    exact if_pos hd
  obtain ⟨hlen, heq⟩ := e.encode_shortest bytes hs
  refine ⟨hback, hlen, fun hl ↦ heq hl.symm, ?_, ?_, ?_⟩
  · rw [canonical, h]
    rfl
  · rw [canonical, hback]
    rfl
  · intro other ho hmin
    obtain ⟨hle, hother⟩ := e.encode_shortest other (decode_eq_ok_iff.1 ho).2
    exact hother (Nat.le_antisymm (hmin e.encode hback) hle)

/-- A sequence with padded octets for its tag, its length and the length of its child. -/
theorem encode_unique_shortest_padded :
    let padded : Bytes := [0x3F, 0x80, 0x10, 0x82, 0, 3, 4, 0x81, 0]
    let e := sequence [octetString []]
    decode padded = .ok e ∧ e.encode = [0x30, 2, 4, 0] ∧ decode [0x30, 2, 4, 0] = .ok e ∧
      canonical padded = .ok [0x30, 2, 4, 0] ∧ canonical [0x30, 2, 4, 0] = .ok [0x30, 2, 4, 0] := by
  intro padded e
  have hp : decode padded = .ok e := by decide +kernel
  have he : e.encode = [0x30, 2, 4, 0] := by decide +kernel
  obtain ⟨hback, _, _, hcanonical, hagain, _⟩ := encode_unique_shortest hp
  rw [he] at hback hcanonical hagain
  exact ⟨hp, he, hback, hcanonical, hagain⟩

end Element

end Ber

end LdapCodec
