import LdapCodec.Proofs.Ber.Shortest

namespace LdapCodec.Ber.Integer

/-- The number that octets spell: the unsigned one, less the power of 256 that has one octet more
if the first bit is set. -/
def twosComplement : Bytes → Int
  | [] => 0
  | b :: rest =>
    if b.toNat < 128 then Bytes.toNat (b :: rest)
    else Bytes.toNat (b :: rest) - 256 ^ (rest.length + 1)

def Fits (bits : Nat) (v : Int) : Prop := -(2 ^ bits) ≤ v ∧ v < 2 ^ bits

instance (bits : Nat) (v : Int) : Decidable (Fits bits v) := inferInstanceAs (Decidable (_ ∧ _))

theorem foldl_eq (start : Int) (bytes : Bytes) :
    bytes.foldl (fun (v : Int) b ↦ v * 256 + b.toNat) start =
      start * 256 ^ bytes.length + Bytes.toNat bytes := by
  induction bytes using List.reverseRecOn with
  | nil => simp
  | append_singleton bytes b ih =>
    rw [List.foldl_append, List.foldl_cons, List.foldl_nil, ih, Bytes.toNat_concat,
      List.length_append, List.length_singleton, Int.pow_succ, Int.add_mul, Int.mul_assoc]
    omega

theorem value_eq_twosComplement (bytes : Bytes) : value bytes = twosComplement bytes := by
  cases bytes with
  | nil => rfl
  | cons b rest =>
    simp only [value, foldl_eq, twosComplement, List.length_cons]
    split
    · omega
    · omega

theorem value_neg_iff (b : UInt8) (rest : Bytes) : value (b :: rest) < 0 ↔ 128 ≤ b.toNat := by
  have hn : (Bytes.toNat (b :: rest) : Int) < 256 ^ (rest.length + 1) := by
    have h := Int.ofNat_lt.2 (Bytes.toNat_lt (b :: rest))
    rwa [Int.natCast_pow] at h
  rw [value_eq_twosComplement, twosComplement]
  split
  · exact iff_of_false (by omega) (by omega)
  · exact iff_of_true (by omega) (by omega)

/-- Octets in front that are all zero for a number that is not negative, and all ones for a
negative one, do not change it. -/
theorem value_replicate {bytes : Bytes} (h : bytes ≠ []) (n : Nat) :
    value (List.replicate n (if value bytes < 0 then 0xFF else 0x00) ++ bytes) = value bytes := by
  cases bytes with
  | nil => exact absurd rfl h
  | cons head rest =>
    refine replicate_repeats value_repeats ?_ rest n
    by_cases hv : value (head :: rest) < 0
    · rw [if_pos hv]
      exact .inr ⟨rfl, (value_neg_iff head rest).1 hv⟩
    · rw [if_neg hv]
      exact .inl ⟨rfl, Nat.not_le.1 (mt (value_neg_iff head rest).2 hv)⟩

/-- Without the octets that only repeat the sign, what is left of any octets is what is written
for their number. -/
theorem significant_eq_octets {bytes : Bytes} (h : bytes ≠ []) :
    significant bytes = octets (value bytes) := by
  have hn := significant_ne_nil h
  have hv := value_significant bytes
  obtain ⟨hle, heq⟩ := octets_shortest (value bytes) (significant bytes) ⟨hn, hv⟩
  refine heq (Nat.le_antisymm ?_ hle)
  match hs : significant bytes with
  | [] => exact absurd hs hn
  | [a] => exact List.length_pos_iff.2 (octets_ne_nil _)
  | a :: b :: rest =>
    have hout := value_of_not_repeats (not_repeats_of_significant hs) rest
    rw [← hs, hv] at hout
    -- As many octets as are left would have to spell a number that they cannot reach.
    by_contra hlt
    have ho := octets_ne_nil (value bytes)
    have hin := value_bounds (octets (value bytes)).dropLast ((octets (value bytes)).getLast ho)
    rw [List.dropLast_concat_getLast ho, value_octets, List.length_dropLast] at hin
    have hp : (256 : Int) ^ ((octets (value bytes)).length - 1) ≤ 256 ^ rest.length :=
      pow_le_pow_of_le (by simp only [List.length_cons] at hlt; omega)
    omega

theorem decode_eq {bytes : Bytes} (h : bytes ≠ []) :
    if Fits 63 (twosComplement bytes) then decode bytes = .ok (twosComplement bytes)
    else ∃ err, decode bytes = .error err ∧ err.kind = .valueOutOfRange := by
  split
  · rename_i hv
    exact decode_eq_ok_iff.2 ⟨h, value_eq_twosComplement bytes, hv⟩
  · rename_i hv
    cases hd : decode bytes with
    | ok v =>
      obtain ⟨-, hvalue, hfits⟩ := decode_eq_ok_iff.1 hd
      rw [← value_eq_twosComplement, hvalue] at hv
      exact absurd hfits hv
    | error err =>
      refine ⟨err, rfl, ?_⟩
      rw [decode, if_neg h] at hd
      dsimp only at hd
      split at hd
      · cases hd
        rfl
      · cases hd

theorem decode_replicate {v : Int} (h : Fits 63 v) (n : Nat) :
    decode (List.replicate n (if v < 0 then 0xFF else 0x00) ++ octets v) = .ok v := by
  have hv := value_replicate (octets_ne_nil v) n
  rw [value_octets] at hv
  exact decode_eq_ok_iff.2 ⟨List.append_ne_nil_of_right_ne_nil _ (octets_ne_nil v), hv, h⟩

theorem shortest_decode (v : Int) : Shortest (decode · = .ok v) (octets v) := by
  intro bytes h
  obtain ⟨hn, hv, -⟩ := decode_eq_ok_iff.1 h
  exact octets_shortest v bytes ⟨hn, hv⟩

variable {cls : TagClass} {number : UInt32} {bytes : Bytes}

theorem asMinimalInteger_eq_ok_iff {v : Int} :
    (Element.primitive cls number bytes).asMinimalInteger = .ok v ↔
      Fits 63 v ∧ bytes = octets v := by
  rw [Element.asMinimalInteger, Element.asOctets, ok_bind, bind_eq_ok]
  constructor
  · rintro ⟨w, hw, h⟩
    split at h
    · rename_i hl
      cases h
      obtain ⟨-, -, hfits⟩ := decode_eq_ok_iff.1 hw
      exact ⟨hfits, (shortest_decode v bytes hw).2 hl.symm⟩
    · cases h
  · rintro ⟨hfits, rfl⟩
    exact ⟨v, decode_octets hfits.1 hfits.2, if_pos rfl⟩

theorem asInt32_eq_ok_iff {w : Int32} :
    (Element.primitive cls number bytes).asInt32 = .ok w ↔
      bytes ≠ [] ∧ twosComplement bytes = w.toInt := by
  have hl := Int32.le_toInt w
  have hu := Int32.toInt_lt w
  rw [Element.asInt32, Element.asInteger, Element.asOctets, ok_bind, bind_eq_ok]
  constructor
  · rintro ⟨v, hv, h⟩
    split at h
    · rename_i w' hw
      cases h
      obtain ⟨hn, hvalue, -⟩ := decode_eq_ok_iff.1 hv
      exact ⟨hn, by rw [← value_eq_twosComplement, hvalue, Word.toInt_of_ofInt? hw]⟩
    · cases h
  · rintro ⟨hn, hv⟩
    rw [← value_eq_twosComplement] at hv
    refine ⟨w.toInt, decode_eq_ok_iff.2 ⟨hn, hv, by omega, by omega⟩, ?_⟩
    simp only [Word.ofInt?_toInt]

theorem exists_asInt32_iff :
    (∃ w, (Element.primitive cls number bytes).asInt32 = .ok w) ↔
      bytes ≠ [] ∧ Fits 31 (twosComplement bytes) := by
  simp only [asInt32_eq_ok_iff, exists_and_left]
  refine and_congr_right fun _ ↦ ⟨?_, fun hfits ↦ ?_⟩
  · rintro ⟨w, hw⟩
    rw [hw]
    exact ⟨Int32.le_toInt w, Int32.toInt_lt w⟩
  · have hlo := hfits.1
    have hhi := hfits.2
    cases hw : Word.ofInt? (twosComplement bytes) with
    | none =>
      have hout := Word.ofInt?_eq_none_iff.1 hw
      omega
    | some w => exact ⟨w, (Word.toInt_of_ofInt? hw).symm⟩

/-- Octets are read as the number that they spell in two's complement, however many there are, if
it has 64 bits. What is written for a number is what is left of any octets that spell it once
those that repeat the sign are dropped: the fewest that are read as the number, and no others of as
many. -/
theorem integers_twosComplement :
    (∀ bytes, bytes ≠ [] →
      (if Fits 63 (twosComplement bytes) then decode bytes = .ok (twosComplement bytes)
        else ∃ err, decode bytes = .error err ∧ err.kind = .valueOutOfRange) ∧
      significant bytes = octets (twosComplement bytes)) ∧
    (∃ err, decode [] = .error err ∧ err.kind = .decoding) ∧
    (∀ v, Fits 63 v →
      decode (octets v) = .ok v ∧ Shortest (decode · = .ok v) (octets v) ∧
      ∀ n, decode (List.replicate n (if v < 0 then 0xFF else 0x00) ++ octets v) = .ok v) ∧
    ∀ cls number bytes,
      (∀ v, (Element.primitive cls number bytes).asMinimalInteger = .ok v ↔
        Fits 63 v ∧ bytes = octets v) ∧
      ((∃ w, (Element.primitive cls number bytes).asInt32 = .ok w) ↔
        bytes ≠ [] ∧ Fits 31 (twosComplement bytes)) ∧
      ∀ w, (Element.primitive cls number bytes).asInt32 = .ok w →
        w.toInt = twosComplement bytes := by
  refine ⟨fun bytes hn ↦ ⟨decode_eq hn, ?_⟩, ⟨_, rfl, rfl⟩, fun v hv ↦ ?_,
    fun cls number bytes ↦ ?_⟩
  · rw [significant_eq_octets hn, value_eq_twosComplement]
  · exact ⟨decode_octets hv.1 hv.2, shortest_decode v, decode_replicate hv⟩
  · exact ⟨fun v ↦ asMinimalInteger_eq_ok_iff, exists_asInt32_iff,
      fun w hw ↦ (asInt32_eq_ok_iff.1 hw).2.symm⟩

/-- A negative number behind octets of ones, and the first number that needs a ninth octet. -/
theorem integers_twosComplement_padded :
    let padded : Bytes := List.replicate 9 0xFF ++ [0x7F]
    let wide : Bytes := 0x00 :: 0x80 :: List.replicate 7 0x00
    (padded ≠ [] ∧ Fits 63 (twosComplement padded) ∧ decode padded = .ok (-129)) ∧
    (wide ≠ [] ∧ ¬Fits 63 (twosComplement wide) ∧
      ∃ err, decode wide = .error err ∧ err.kind = .valueOutOfRange) ∧
    Fits 63 (-129) ∧ octets (-129) = [0xFF, 0x7F] ∧
      ∀ n, decode (List.replicate n 0xFF ++ [0xFF, 0x7F]) = .ok (-129) := by
  intro padded wide
  obtain ⟨hread, -, hwritten, -⟩ := integers_twosComplement
  have hp : padded ≠ [] := by decide
  have hpv : twosComplement padded = -129 := by decide +kernel
  have hpf : Fits 63 (twosComplement padded) := by decide +kernel
  have hw : wide ≠ [] := by decide
  have hwf : ¬Fits 63 (twosComplement wide) := by decide +kernel
  have hf : Fits 63 (-129) := by decide +kernel
  have ho : octets (-129) = [0xFF, 0x7F] := by
    rw [← hpv, ← (hread padded hp).2]
    rfl
  have hpadded := (hread padded hp).1
  have hwide := (hread wide hw).1
  rw [if_pos hpf, hpv] at hpadded
  rw [if_neg hwf] at hwide
  have hnegative := (hwritten (-129) hf).2.2
  rw [ho] at hnegative
  exact ⟨⟨hp, hpf, hpadded⟩, ⟨hw, hwf, hwide⟩, hf, ho, hnegative⟩

end LdapCodec.Ber.Integer
