import LdapCodec.Proofs.Ber.Recoding
import LdapCodec.Refusal

namespace LdapCodec.Trapping

open Ber

variable {α : Type} (trap : DecodeError)

/-- The item at a place of a list. A place outside it ends with `trap`. What comes out the
same for every `trap` never looks at such a place. -/
def item (xs : List α) (place : Nat) : Except DecodeError α :=
  match xs[place]? with
  | some x => .ok x
  | none => .error trap

def slice (xs : List α) (start stop : Nat) : Except DecodeError (List α) :=
  if start ≤ stop ∧ stop ≤ xs.length then .ok ((xs.take stop).drop start) else .error trap

def overwrite (xs : List α) (start : Nat) (ys : List α) : Except DecodeError (List α) :=
  if start + ys.length = xs.length then .ok (xs.take start ++ ys) else .error trap

/-- What a constructor makes. One that refuses its arguments ends with `trap`. -/
def built (x : Except Refusal α) : Except DecodeError α := x.mapError fun _ ↦ trap

@[simp]
theorem item_zero (x : α) (xs : List α) : item trap (x :: xs) 0 = .ok x := rfl

@[simp]
theorem item_succ (x : α) (xs : List α) (place : Nat) :
    item trap (x :: xs) (place + 1) = item trap xs place := rfl

@[simp]
theorem item_append (before after : List α) (place : Nat) :
    item trap (before ++ after) (before.length + place) = item trap after place := by
  rw [item, item, List.getElem?_append_right (Nat.le_add_right _ _), Nat.add_sub_cancel_left]

/-- What is left of a list behind a part that has been read. -/
theorem slice_append (before after : List α) :
    slice trap (before ++ after) before.length (before ++ after).length = .ok after := by
  rw [slice, if_pos (by simp), List.take_length, List.drop_left]

theorem slice_middle (before middle after : List α) :
    slice trap (before ++ (middle ++ after)) before.length (before.length + middle.length) =
      .ok middle := by
  rw [slice, if_pos (by simp), List.take_append, List.take_of_length_le (by omega),
    Nat.add_sub_cancel_left, List.take_left, List.drop_left]

theorem slice_tail (x : α) (xs : List α) : slice trap (x :: xs) 1 (x :: xs).length = .ok xs :=
  slice_append trap [x] xs

theorem slice_take (x : α) {xs : List α} {n : Nat} (h : n ≤ xs.length) :
    slice trap (x :: xs) 1 (n + 1) = .ok (xs.take n) := by
  rw [slice, if_pos (by simpa using h), List.take_succ_cons, List.drop_one, List.tail_cons]

theorem built_ok (x : α) : built trap (.ok x) = .ok x := rfl

def length (data : Bytes) : Except DecodeError (Length × Nat) :=
  match data.head? with
  | none => .error (.malformedLength "Empty buffer for length decoding")
  | some b =>
    let count := b.toNat - 128
    if b.toNat < 128 then .ok (.short b.toNat, 1)
    else if count = 0 then
      .error (.malformedLength "Indefinite length encoding not supported")
    else if count > Length.maxOctets then
      .error (.malformedLength
        s!"Length encoding too large: {count} bytes (max {Length.maxOctets})")
    else if data.length < count + 1 then
      let need := count + 1
      .error (.malformedLength
        s!"Buffer too short for long form length: need {need} bytes, got {data.length}")
    else do
      let octets ← slice trap data 1 (count + 1)
      .ok (.long (Bytes.toNat octets), count + 1)

def tlv (buffer : Bytes) (position : Nat) : Except DecodeError (Tlv × Nat) := do
  let front ← slice trap buffer position buffer.length
  let (tag, rest) ← Tag.read front
  let position := position + (front.length - rest.length)
  let front ← slice trap buffer position buffer.length
  let (length, taken) ← length trap front
  let position := position + taken
  let n := length.value
  let remaining := buffer.length - position
  if n ≤ remaining then
    let content ← slice trap buffer position (position + n)
    .ok (⟨tag, content⟩, position + n)
  else
    .error (.malformedLength s!"Declared length {n} exceeds remaining {remaining} bytes")

def elements (read : Bytes → Nat → Except DecodeError (Element × Nat)) (buffer : Bytes) :
    (steps position : Nat) → Except DecodeError (List Element)
  | 0, position =>
    if position < buffer.length then .error (.decoding "Elements do not end") else .ok []
  | steps + 1, position =>
    if position < buffer.length then do
      let (x, position) ← read buffer position
      let xs ← elements read buffer steps position
      .ok (x :: xs)
    else .ok []

def element (levels : Nat) (buffer : Bytes) (position : Nat) :
    Except DecodeError (Element × Nat) := do
  let (t, position) ← tlv trap buffer position
  if t.tag.constructed then
    match levels with
    | 0 => .error (.decoding s!"Elements nested deeper than {Element.maxDepth} levels")
    | levels + 1 =>
      let children ← elements (element levels) t.content t.content.length 0
      .ok (.ofChildren t.tag children, position)
  else .ok (.ofContent t.tag t.content, position)

def decode (bytes : Bytes) : Except DecodeError Element := do
  let (e, position) ← element trap Element.maxDepth bytes 0
  if position = bytes.length then .ok e
  else .error (.decoding s!"{bytes.length - position} trailing bytes after element")

def signs (bytes : Bytes) (start : Nat) : Except DecodeError Nat :=
  if h : start + 1 < bytes.length then do
    let a ← item trap bytes start
    let b ← item trap bytes (start + 1)
    if (a = 0x00 ∧ b.toNat < 128) ∨ (a = 0xFF ∧ b.toNat ≥ 128) then signs bytes (start + 1)
    else .ok start
  else .ok start
termination_by bytes.length - start

def significant (bytes : Bytes) : Except DecodeError Bytes := do
  let start ← signs trap bytes 0
  slice trap bytes start bytes.length

def integer (bytes : Bytes) : Except DecodeError Int :=
  if bytes = [] then .error (.decoding "Empty integer encoding")
  else do
    let sig ← significant trap bytes
    if sig.length > 8 then
      .error (.valueOutOfRange s!"Integer too large: {sig.length} significant bytes (max 8)")
    else
      let head ← item trap sig 0
      let fill : UInt8 := if head.toNat < 128 then 0x00 else 0xFF
      let word ← overwrite trap (List.replicate 8 fill) (8 - sig.length) sig
      .ok (Integer.value word)

def asBoolean (e : Element) : Except DecodeError Bool := do
  let content ← e.asOctets
  if content.length = 1 then
    let b ← item trap content 0
    .ok (b != 0)
  else
    .error (.malformedLength
      s!"Boolean must have exactly one content byte, got {content.length}")

def asInteger (e : Element) : Except DecodeError Int := do
  integer trap (← e.asOctets)

def asInt32 (e : Element) : Except DecodeError Int32 := do
  let v ← asInteger trap e
  match Word.ofInt? v with
  | some w => .ok w
  | none => .error (.valueOutOfRange s!"Integer {v} does not fit in 32 bits")

def nonNegative (e : Element) (what : String) : Except DecodeError Int32 := do
  let v ← within what (asInt32 trap e)
  if v < 0 then
    .error (.valueOutOfRange s!"{what} must not be negative, got {v.toInt}")
  else .ok v

def word : (n : Nat) → Int → Bytes
  | 0, _ => []
  | n + 1, v => word n (v / 256) ++ [UInt8.ofNat (v % 256).toNat]

def integerOctets (v : Int) : Except DecodeError Bytes := significant trap (word 8 v)

def lengthOctets (n : Nat) : Except DecodeError Bytes :=
  if n < 128 then .ok [UInt8.ofNat n]
  else do
    let bytes := word 8 n
    let skip := (bytes.takeWhile (· = 0)).length
    let significant ← slice trap bytes skip bytes.length
    .ok (Length.longMark significant.length :: significant)

def describe (tag : Tag) : Except DecodeError String :=
  let form := if tag.constructed then "constructed" else "primitive"
  let head := s!"[{tag.cls.label} {tag.number.toNat}] {form}"
  if tag.number.toNat ≤ 30 then do
    let low := Hex.octet (← item trap tag.encode 0)
    .ok s!"{head} (0x{low})"
  else .ok head

theorem length_eq (data : Bytes) :
    length trap data = (Length.read data).map fun p ↦ (p.1, data.length - p.2.length) := by
  cases data with
  | nil => rfl
  | cons b rest =>
    simp only [length, List.head?_cons, Length.read, List.length_cons, Nat.add_lt_add_iff_right]
    split
    · simp [Except.map]
    split
    · rfl
    split
    · rfl
    split
    · rfl
    · rename_i hn
      have hl := Nat.not_lt.1 hn
      have hp : rest.length + 1 - (rest.length - (b.toNat - 128)) = b.toNat - 128 + 1 := by omega
      rw [slice_take trap b hl, ok_bind]
      simp only [Except.map, List.length_drop, hp]

variable (before : Bytes)

/-- To read at a place of a buffer is to read what is left there. How much is left afterwards
tells the place behind what was read. -/
theorem tlv_eq (bytes : Bytes) :
    tlv trap (before ++ bytes) before.length =
      (Tlv.read bytes).map fun p ↦ (p.1, before.length + (bytes.length - p.2.length)) := by
  rw [tlv, slice_append, ok_bind, Tlv.read]
  cases ht : Tag.read bytes with
  | error e => rfl
  | ok p =>
    obtain ⟨tag, rest⟩ := p
    obtain ⟨id, _, rfl⟩ := Tag.isIdentifier_of_read ht
    have hp : before.length + ((id ++ rest).length - rest.length) = (before ++ id).length := by
      simp
    rw [ok_bind, ok_bind]
    dsimp only
    rw [hp, ← List.append_assoc before, slice_append, ok_bind, length_eq]
    cases hl : Length.read rest with
    | error e => rfl
    | ok q =>
      obtain ⟨length, rest⟩ := q
      obtain ⟨size, _, rfl⟩ := Length.isLength_of_read hl
      have hp : (before ++ id).length + ((size ++ rest).length - rest.length) =
          (before ++ id ++ size).length := by
        simp only [List.length_append]
        omega
      simp only [Except.map, ok_bind, hp]
      rw [← List.append_assoc (before ++ id) size rest]
      have hr : (before ++ id ++ size ++ rest).length - (before ++ id ++ size).length =
          rest.length := by
        rw [List.length_append, Nat.add_sub_cancel_left]
      rw [hr]
      split
      · rename_i hn
        have hm := slice_middle trap (before ++ id ++ size) (rest.take length.value)
          (rest.drop length.value)
        rw [List.take_append_drop, List.length_take_of_le hn] at hm
        rw [hm, ok_bind]
        simp only [List.length_append, List.length_drop]
        congr 2
        omega
      · rfl

theorem elements_eq {read : Bytes → Nat → Except DecodeError (Element × Nat)}
    {front : Bytes → Except DecodeError (Element × Bytes)}
    (hread : ∀ before bytes, read (before ++ bytes) before.length =
      (front bytes).map fun p ↦ (p.1, before.length + (bytes.length - p.2.length)))
    (hfront : ∀ bytes e rest, front bytes = .ok (e, rest) → ∃ taken, bytes = taken ++ rest)
    (steps : Nat) (bytes : Bytes) :
    elements read (before ++ bytes) steps before.length = readMany front steps bytes := by
  -- What an element takes goes over to the part before the place.
  induction steps generalizing before bytes with
  | zero =>
    cases bytes with
    | nil => simp [elements, readMany]
    | cons b bytes => simp [elements, readMany]
  | succ steps ih =>
    cases bytes with
    | nil => simp [elements, readMany]
    | cons b bytes =>
      rw [elements, if_pos (by simp), hread]
      simp only [readMany]
      cases hf : front (b :: bytes) with
      | error e => rfl
      | ok p =>
        obtain ⟨e, rest⟩ := p
        obtain ⟨taken, ht⟩ := hfront _ _ _ hf
        have hp : before.length + ((b :: bytes).length - rest.length) =
            (before ++ taken).length := by
          rw [ht]
          simp
        simp only [Except.map, ok_bind, hp]
        rw [ht, ← List.append_assoc, ih]

theorem element_eq (levels : Nat) (bytes : Bytes) :
    element trap levels (before ++ bytes) before.length =
      (Element.readWithin levels bytes).map
        fun p ↦ (p.1, before.length + (bytes.length - p.2.length)) := by
  induction levels generalizing before bytes with
  | zero =>
    rw [element, tlv_eq, Element.readWithin]
    cases Tlv.read bytes with
    | error e => rfl
    | ok p =>
      simp only [Except.map, ok_bind]
      split
      · rfl
      · rfl
  | succ levels ih =>
    rw [element, tlv_eq, Element.readWithin]
    cases Tlv.read bytes with
    | error e => rfl
    | ok p =>
      obtain ⟨t, rest⟩ := p
      simp only [Except.map, ok_bind]
      split
      · have he := elements_eq [] ih (fun _ _ _ ↦ Element.exists_append_of_readWithin)
          t.content.length t.content
        rw [List.nil_append, List.length_nil] at he
        rw [he]
        cases readMany (Element.readWithin levels) t.content.length t.content with
        | error e => rfl
        | ok children => rfl
      · rfl

theorem decode_eq (bytes : Bytes) : decode trap bytes = Element.decode bytes := by
  have he := element_eq trap [] Element.maxDepth bytes
  rw [List.nil_append, List.length_nil] at he
  rw [decode, he, Element.decode, Element.read]
  cases hr : Element.readWithin Element.maxDepth bytes with
  | error e => rfl
  | ok p =>
    obtain ⟨e, rest⟩ := p
    obtain ⟨taken, rfl⟩ := Element.exists_append_of_readWithin hr
    simp [Except.map]

theorem signs_eq (bytes : Bytes) :
    signs trap (before ++ bytes) before.length =
        .ok (before.length + (bytes.length - (Integer.significant bytes).length)) ∧
      ∃ taken, bytes = taken ++ Integer.significant bytes := by
  fun_induction Integer.significant bytes generalizing before with
  | case1 a b rest hr ih =>
    obtain ⟨hs, taken, ht⟩ := ih (before ++ [a])
    rw [List.append_cons, signs, dif_pos (by simp), ← List.append_cons]
    have ha : item trap (before ++ a :: b :: rest) before.length = .ok a :=
      item_append trap before (a :: b :: rest) 0
    rw [ha, ok_bind, item_append trap before (a :: b :: rest) 1, item_succ, item_zero, ok_bind,
      if_pos hr, List.append_cons]
    have hp : before.length + 1 = (before ++ [a]).length := by simp
    rw [hp, hs]
    have hl : (Integer.significant (b :: rest)).length ≤ (b :: rest).length :=
      Integer.length_significant_le _
    refine ⟨?_, a :: taken, congrArg (a :: ·) ht⟩
    simp only [List.length_append, List.length_cons, List.length_nil] at hl ⊢
    congr 1
    omega
  | case2 a b rest hr =>
    rw [signs, dif_pos (by simp)]
    have ha : item trap (before ++ a :: b :: rest) before.length = .ok a :=
      item_append trap before (a :: b :: rest) 0
    rw [ha, ok_bind, item_append trap before (a :: b :: rest) 1, item_succ, item_zero, ok_bind,
      if_neg hr, Nat.sub_self]
    exact ⟨rfl, [], rfl⟩
  | case3 bytes hb =>
    have hl : bytes.length ≤ 1 := by
      cases bytes with
      | nil => simp
      | cons a rest =>
        cases rest with
        | nil => simp
        | cons b rest => exact absurd rfl (hb a b rest)
    rw [signs, dif_neg (by rw [List.length_append]; omega), Nat.sub_self]
    exact ⟨rfl, [], rfl⟩

theorem significant_eq (bytes : Bytes) :
    significant trap bytes = .ok (Integer.significant bytes) := by
  obtain ⟨hs, taken, ht⟩ := signs_eq trap [] bytes
  have hstart : bytes.length - (Integer.significant bytes).length = taken.length := by
    have hl := congrArg List.length ht
    rw [List.length_append] at hl
    omega
  rw [List.nil_append, List.length_nil, Nat.zero_add, hstart] at hs
  rw [significant, hs, ok_bind]
  conv_lhs => rw [ht]
  exact slice_append trap taken _

theorem integer_eq (bytes : Bytes) : integer trap bytes = Integer.decode bytes := by
  unfold integer Integer.decode
  split
  · rfl
  · rename_i hn
    rw [significant_eq, ok_bind]
    dsimp only
    split
    · rfl
    · rename_i h8
      cases hsig : Integer.significant bytes with
      | nil => exact absurd hsig (Integer.significant_ne_nil hn)
      | cons head rest =>
        rw [hsig] at h8
        have hfill : Integer.Repeats (if head.toNat < 128 then 0x00 else 0xFF) head := by
          split
          · exact .inl ⟨rfl, ‹_›⟩
          · exact .inr ⟨rfl, Nat.not_lt.1 ‹_›⟩
        have hlen : 8 - (head :: rest).length + (head :: rest).length = 8 := by omega
        simp only [item_zero, ok_bind, overwrite, List.length_replicate, if_pos hlen,
          List.take_replicate, Integer.replicate_repeats Integer.value_repeats hfill]

@[simp]
theorem asBoolean_eq (e : Element) : asBoolean trap e = e.asBoolean := by
  unfold asBoolean Element.asBoolean
  cases e.asOctets with
  | error err => rfl
  | ok content =>
    match content with
    | [] => rfl
    | [b] => rfl
    | a :: b :: rest => rfl

@[simp]
theorem asInteger_eq (e : Element) : asInteger trap e = e.asInteger := by
  simp only [asInteger, integer_eq]
  rfl

@[simp]
theorem asInt32_eq (e : Element) : asInt32 trap e = e.asInt32 := by
  rw [asInt32, asInteger_eq]
  rfl

@[simp]
theorem nonNegative_eq (e : Element) (what : String) :
    nonNegative trap e what = Ber.nonNegative e what := by
  rw [nonNegative, asInt32_eq]
  rfl

theorem describe_eq (tag : Tag) : describe trap tag = .ok tag.describe := by
  unfold describe Tag.describe Tag.encode
  dsimp only
  split
  · rfl
  · rfl

def sign (v : Int) : UInt8 := if v < 0 then 0xFF else 0x00

theorem repeats_sign {v : Int} (h : -128 ≤ v ∧ v < 128) :
    Integer.Repeats (sign v) (UInt8.ofNat (v % 256).toNat) := by
  have hb : (UInt8.ofNat (v % 256).toNat).toNat = (v % 256).toNat := by
    rw [UInt8.toNat_ofNat']
    omega
  unfold sign
  split
  · exact .inr ⟨rfl, by omega⟩
  · exact .inl ⟨rfl, by omega⟩

/-- A number in a word is what is written for it, behind octets that repeat its sign. -/
theorem word_eq {v : Int} {k : Nat} (hl : -(128 * 256 ^ k) ≤ v) (hu : v < 128 * 256 ^ k) :
    ∃ n head rest, Integer.octets v = head :: rest ∧ Integer.Repeats (sign v) head ∧
      word (k + 1) v = List.replicate n (sign v) ++ head :: rest := by
  induction k generalizing v with
  | zero =>
    have hv : -128 ≤ v ∧ v < 128 := by omega
    exact ⟨0, _, [], Integer.octets_of_small hv, repeats_sign hv, rfl⟩
  | succ k ih =>
    rw [Int.pow_succ] at hl hu
    have hs : sign (v / 256) = sign v := by
      unfold sign
      congr 1
      rw [eq_iff_iff]
      omega
    obtain ⟨n, head, rest, ho, hr, hw⟩ := ih (v := v / 256) (by omega) (by omega)
    rw [hs] at hr hw
    rw [word, hw]
    by_cases hv : -128 ≤ v ∧ v < 128
    · have hsign : Integer.octets (v / 256) = [sign v] := by
        rw [Integer.octets_of_small (by omega), ← hs]
        obtain hq | hq : v / 256 = 0 ∨ v / 256 = -1 := by omega
        · rw [hq]
          rfl
        · rw [hq]
          rfl
      obtain ⟨rfl, rfl⟩ := List.cons.inj (ho.symm.trans hsign)
      refine ⟨n + 1, _, [], Integer.octets_of_small hv, repeats_sign hv, ?_⟩
      rw [List.replicate_succ', List.append_assoc]
    · refine ⟨n, head, rest ++ [UInt8.ofNat (v % 256).toNat], ?_, hr, by simp⟩
      rw [Integer.octets_of_large hv, ho, List.cons_append]

theorem integerOctets_eq {v : Int} (hl : -(2 ^ 63) ≤ v) (hu : v < 2 ^ 63) :
    integerOctets trap v = .ok (Integer.octets v) := by
  obtain ⟨n, head, rest, ho, hr, hw⟩ := word_eq (k := 7) (v := v) (by omega) (by omega)
  rw [integerOctets, significant_eq, hw,
    Integer.replicate_repeats Integer.significant_repeats hr, ← ho, Integer.significant_octets]

theorem word_natCast {n k : Nat} (h : n < 256 ^ k) :
    ∃ zeros, word k n = List.replicate zeros 0 ++ Bytes.ofNat n := by
  induction k generalizing n with
  | zero =>
    have hn : n = 0 := by simpa using h
    subst hn
    exact ⟨0, by rw [Bytes.ofNat_zero]; rfl⟩
  | succ k ih =>
    have hd : n / 256 < 256 ^ k := by
      rw [Nat.div_lt_iff_lt_mul (by omega)]
      simpa only [Nat.pow_succ] using h
    obtain ⟨zeros, hz⟩ := ih hd
    have hw : word (k + 1) n = word k (n / 256 : Nat) ++ [UInt8.ofNat (n % 256)] := rfl
    rw [hw, hz]
    by_cases hn : n = 0
    · subst hn
      refine ⟨zeros + 1, ?_⟩
      rw [Nat.zero_div, Bytes.ofNat_zero, List.append_nil, List.append_nil, List.replicate_succ']
      rfl
    · exact ⟨zeros, by rw [Bytes.ofNat_of_ne_zero hn, List.append_assoc]⟩

theorem head_ofNat_ne_zero {n : Nat} {head : UInt8} {rest : Bytes}
    (h : Bytes.ofNat n = head :: rest) : head ≠ 0 := by
  rintro rfl
  have hrest : Bytes.toNat rest = n := by
    rw [← Bytes.toNat_ofNat n, h]
    simp [Bytes.toNat]
  have hl := (Bytes.ofNat_shortest n rest hrest).1
  rw [h, List.length_cons] at hl
  omega

theorem lengthOctets_eq {n : Nat} (h : n < 2 ^ 64) :
    lengthOctets trap n = .ok (Length.octets n) := by
  unfold lengthOctets Length.octets
  split
  · rfl
  · obtain ⟨zeros, hw⟩ := word_natCast (k := 8) (n := n) (by omega)
    cases ho : Bytes.ofNat n with
    | nil => exact absurd ho (Bytes.ofNat_ne_nil (by omega))
    | cons head rest =>
      have htake : ((word 8 n).takeWhile (· = 0)).length =
          (List.replicate zeros (0 : UInt8)).length := by
        rw [hw, ho]
        simp [head_ofNat_ne_zero ho]
      dsimp only
      rw [htake, hw, slice_append, ok_bind, ho]

end LdapCodec.Trapping
