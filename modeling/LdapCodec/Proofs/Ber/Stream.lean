import LdapCodec.Ber.Stream
import LdapCodec.Proofs.Ber.Header

namespace LdapCodec.Ber

namespace Source

theorem next?_flatten (source : Source) :
    source.next?.map (fun p ↦ (p.1, p.2.flatten)) =
      source.flatten.head?.map fun b ↦ (b, source.flatten.tail) := by
  fun_induction next? source with
  | case1 => rfl
  | case2 chunks ih => simpa using ih
  | case3 b bs chunks => simp

theorem take?_flatten (n : Nat) (source : Source) :
    (source.take? n).map (fun p ↦ (p.1, p.2.flatten)) =
      if n ≤ source.flatten.length then some (source.flatten.take n, source.flatten.drop n)
      else none := by
  induction source generalizing n with
  | nil =>
    by_cases hn : n = 0
    · simp [take?, hn]
    · simp [take?, hn]
  | cons chunk chunks ih =>
    rw [take?]
    by_cases hc : n ≤ chunk.length
    · simp [hc, List.take_append_of_le_length, List.drop_append_of_le_length]
      omega
    · have hi := ih (n - chunk.length)
      rw [if_neg hc, Option.map_map]
      by_cases hn : n - chunk.length ≤ chunks.flatten.length
      · rw [if_pos hn] at hi
        rw [if_pos (by simp only [List.flatten_cons, List.length_append]; omega)]
        obtain ⟨⟨bytes, rest⟩, hr, he⟩ := Option.map_eq_some_iff.1 hi
        simp only [Prod.mk.injEq] at he
        simp only [hr, Option.map_some, Function.comp_apply, he.1, he.2, List.flatten_cons]
        have hle : chunk.length ≤ n := by omega
        rw [List.take_append, List.drop_append, List.take_of_length_le hle,
          List.drop_eq_nil_of_le hle, List.nil_append]
      · rw [if_neg hn, Option.map_eq_none_iff] at hi
        rw [if_neg (by simp only [List.flatten_cons, List.length_append]; omega), hi]
        rfl

end Source

namespace Stream

variable {α β : Type}

/-- However `bytes` are cut into chunks, the step ends with `r` and leaves `left`. -/
def Step.Runs (step : Step α) (bytes : Bytes) (r : Except Failure α) (left : Bytes) : Prop :=
  ∀ source : Source, source.flatten = bytes →
    (step source).1 = r ∧ (step source).2.flatten = left

def overlongIdentifier : DecodeError :=
  .unexpectedTag "Tag number does not fit in 32 bits"

def unsupportedForm (mark : UInt8) : DecodeError :=
  let form := Hex.octet mark
  .malformedLength s!"Unsupported length form 0x{form}"

namespace Step.Runs

theorem unique {step : Step α} {bytes left left' : Bytes} {r r' : Except Failure α}
    (h : step.Runs bytes r left) (h' : step.Runs bytes r' left') : r = r' ∧ left = left' := by
  obtain ⟨hr, hl⟩ := h [bytes] (by simp)
  obtain ⟨hr', hl'⟩ := h' [bytes] (by simp)
  exact ⟨hr.symm.trans hr', hl.symm.trans hl'⟩

theorem done (x : α) (bytes : Bytes) : Step.Runs (fun s ↦ (.ok x, s)) bytes (.ok x) bytes :=
  fun _ h ↦ ⟨rfl, h⟩

theorem fail (e : Failure) (bytes : Bytes) :
    (Step.fail e : Step α).Runs bytes (.error e) bytes := fun _ h ↦ ⟨rfl, h⟩

theorem bind {step : Step α} {f : α → Step β} {bytes between left : Bytes} {x : α}
    {r : Except Failure β} (h : step.Runs bytes (.ok x) between)
    (hf : (f x).Runs between r left) : (step.bind f).Runs bytes r left := by
  intro source hs
  obtain ⟨hr, hl⟩ := h source hs
  rw [Step.bind]
  split
  · rename_i y rest he
    rw [he] at hr hl
    cases hr
    exact hf rest hl
  · rename_i e rest he
    rw [he] at hr
    cases hr

theorem bind_error {step : Step α} {f : α → Step β} {bytes left : Bytes} {e : Failure}
    (h : step.Runs bytes (.error e) left) : (step.bind f).Runs bytes (.error e) left := by
  intro source hs
  obtain ⟨hr, hl⟩ := h source hs
  rw [Step.bind]
  split
  · rename_i y rest he
    rw [he] at hr
    cases hr
  · rename_i e' rest he
    rw [he] at hr hl
    cases hr
    exact ⟨rfl, hl⟩

theorem octet (b : UInt8) (rest : Bytes) : Stream.octet.Runs (b :: rest) (.ok b) rest := by
  intro source hs
  have hn := source.next?_flatten
  rw [hs] at hn
  obtain ⟨⟨b', rest'⟩, hb, he⟩ := Option.map_eq_some_iff.1 hn
  cases he
  simp only [Stream.octet, hb, and_self]

theorem octet_nil : Stream.octet.Runs [] (.error .endOfInput) [] := by
  intro source hs
  have hn := source.next?_flatten
  rw [hs] at hn
  have hb := Option.map_eq_none_iff.1 hn
  simp only [Stream.octet, hb, List.flatten_nil, and_self]

theorem octets (content rest : Bytes) :
    (Stream.octets content.length).Runs (content ++ rest) (.ok content) rest := by
  intro source hs
  have ht := source.take?_flatten content.length
  rw [hs, if_pos (by simp only [List.length_append]; omega), List.take_left, List.drop_left] at ht
  obtain ⟨⟨bytes, rest'⟩, hb, he⟩ := Option.map_eq_some_iff.1 ht
  cases he
  simp only [Stream.octets, hb, and_self]

theorem octets_short {n : Nat} {bytes : Bytes} (h : bytes.length < n) :
    (Stream.octets n).Runs bytes (.error .endOfInput) [] := by
  intro source hs
  have ht := source.take?_flatten n
  rw [hs, if_neg (by omega)] at ht
  have hb := Option.map_eq_none_iff.1 ht
  simp only [Stream.octets, hb, List.flatten_nil, and_self]

theorem groups {gs : Bytes} (hg : IsGroups gs) {room : Nat} (hl : gs.length ≤ room)
    (rest : Bytes) : (Stream.groups room).Runs (gs ++ rest) (.ok gs) rest := by
  induction hg generalizing room with
  | last hb =>
    obtain ⟨room, rfl⟩ : ∃ k, room = k + 1 := ⟨room - 1, by simp at hl; omega⟩
    refine bind (octet _ _) ?_
    rw [if_pos hb]
    exact done _ _
  | @more b gs hb hg ih =>
    rw [List.length_cons] at hl
    obtain ⟨room, rfl⟩ : ∃ k, room = k + 1 := ⟨room - 1, by omega⟩
    refine bind (octet _ _) ?_
    rw [if_neg (by omega)]
    exact bind (ih (by omega)) (done _ _)

theorem groups_overlong {gs : Bytes} (hg : ∀ g ∈ gs, 128 ≤ g.toNat) (rest : Bytes) :
    (Stream.groups gs.length).Runs (gs ++ rest)
      (.error (.decode overlongIdentifier)) rest := by
  induction gs with
  | nil => exact fail _ _
  | cons b gs ih =>
    obtain ⟨hb, hgs⟩ := List.forall_mem_cons.1 hg
    refine bind (octet _ _) ?_
    rw [if_neg (by omega)]
    exact bind_error (ih hgs)

theorem groups_truncated {gs : Bytes} (hg : ∀ g ∈ gs, 128 ≤ g.toNat) {room : Nat}
    (hl : gs.length < room) : (Stream.groups room).Runs gs (.error .endOfInput) [] := by
  induction gs generalizing room with
  | nil =>
    obtain ⟨room, rfl⟩ : ∃ k, room = k + 1 := ⟨room - 1, by simp at hl; omega⟩
    exact bind_error octet_nil
  | cons b gs ih =>
    rw [List.length_cons] at hl
    obtain ⟨room, rfl⟩ : ∃ k, room = k + 1 := ⟨room - 1, by omega⟩
    obtain ⟨hb, hgs⟩ := List.forall_mem_cons.1 hg
    refine bind (octet _ _) ?_
    rw [if_neg (by omega)]
    exact bind_error (ih hgs (by omega))

theorem identifier {b : UInt8} {gs : Bytes} (hid : IsIdentifier (b :: gs))
    (hl : (b :: gs).length ≤ 6) (rest : Bytes) :
    (Stream.identifier b).Runs (gs ++ rest) (.ok (b :: gs)) rest := by
  rw [Stream.identifier]
  cases hid with
  | low hb =>
    rw [if_neg (by omega)]
    exact done _ _
  | high hb hg =>
    rw [List.length_cons] at hl
    rw [if_pos hb]
    exact bind (groups hg (show gs.length ≤ 5 by omega) rest) (done _ _)

theorem lengthOctets (ds rest : Bytes) :
    (Stream.length.lengthOctets ds.length).Runs (ds ++ rest) (.ok ds) rest := by
  induction ds with
  | nil => exact done _ _
  | cons d ds ih => exact bind (octet _ _) (bind ih (done _ _))

theorem lengthOctets_short {ds : Bytes} {n : Nat} (h : ds.length < n) :
    (Stream.length.lengthOctets n).Runs ds (.error .endOfInput) [] := by
  induction ds generalizing n with
  | nil =>
    obtain ⟨n, rfl⟩ : ∃ k, n = k + 1 := ⟨n - 1, by simp at h; omega⟩
    exact bind_error octet_nil
  | cons d ds ih =>
    rw [List.length_cons] at h
    obtain ⟨n, rfl⟩ : ∃ k, n = k + 1 := ⟨n - 1, by omega⟩
    exact bind (octet _ _) (bind_error (ih (by omega)))

theorem length {size : Bytes} {n : Nat} (hn : IsLength size n) (rest : Bytes) :
    Stream.length.Runs (size ++ rest) (.ok (size, n)) rest := by
  cases hn with
  | short hb =>
    refine bind (octet _ _) ?_
    simp only [if_pos hb]
    exact done _ _
  | @long mark ds hm hp hl =>
    have hd := List.length_pos_iff.2 hp
    have hc : mark.toNat - 128 = ds.length := by omega
    have h4 : Length.maxOctets = 4 := rfl
    refine bind (octet _ _) ?_
    simp only [hc]
    rw [if_neg (by omega), if_neg (by omega)]
    exact bind (lengthOctets ds rest) (done _ _)

theorem length_truncated {mark : UInt8} {ds : Bytes} (hl : ds.length + 128 < mark.toNat)
    (hm : mark.toNat ≤ 132) : Stream.length.Runs (mark :: ds) (.error .endOfInput) [] := by
  have h4 : Length.maxOctets = 4 := rfl
  refine bind (octet _ _) ?_
  simp only
  rw [if_neg (by omega), if_neg (by omega)]
  exact bind_error (lengthOctets_short (by omega))

theorem length_unsupported {mark : UInt8} (hm : mark.toNat = 128 ∨ 132 < mark.toNat)
    (rest : Bytes) :
    Stream.length.Runs (mark :: rest) (.error (.decode (unsupportedForm mark))) rest := by
  have h4 : Length.maxOctets = 4 := rfl
  refine bind (octet _ _) ?_
  simp only
  rw [if_neg (by omega), if_pos (by omega)]
  exact fail _ _

end Step.Runs

/-- Octets that end inside an identifier, before or inside a length, or inside a content
that is not too long. -/
inductive Truncated (max : Nat) : Bytes → Prop
  | identifier {b : UInt8} {gs : Bytes} (hb : b.toNat % 32 = 31) (hg : ∀ g ∈ gs, 128 ≤ g.toNat)
      (hl : gs.length < 5) : Truncated max (b :: gs)
  | noLength {id : Bytes} (hid : IsIdentifier id) (hl : id.length ≤ 6) : Truncated max id
  | length {id ds : Bytes} {mark : UInt8} (hid : IsIdentifier id) (hl : id.length ≤ 6)
      (hd : ds.length + 128 < mark.toNat) (hm : mark.toNat ≤ 132) :
      Truncated max (id ++ mark :: ds)
  | content {head : Header} {content : Bytes} (hl : head.identifier.length ≤ 6)
      (hm : head.length ≤ max) (hc : content.length < head.length) :
      Truncated max (head.octets ++ content)

/-- What one reading makes of octets, and what it leaves of them: nothing at the end of the
stream, an element, or a failure at the first octet where it shows. -/
inductive Reads (max : Nat) : Bytes → Except Failure (Option Element) → Bytes → Prop
  | nothing : Reads max [] (.ok none) []
  | overlong {b : UInt8} {gs : Bytes} (hb : b.toNat % 32 = 31) (hg : ∀ g ∈ gs, 128 ≤ g.toNat)
      (hl : gs.length = 5) (rest : Bytes) :
      Reads max (b :: gs ++ rest) (.error (.decode overlongIdentifier)) rest
  | unsupported {id : Bytes} {mark : UInt8} (hid : IsIdentifier id) (hl : id.length ≤ 6)
      (hm : mark.toNat = 128 ∨ 132 < mark.toNat) (rest : Bytes) :
      Reads max (id ++ mark :: rest) (.error (.decode (unsupportedForm mark))) rest
  | truncated {bytes : Bytes} (h : Truncated max bytes) :
      Reads max bytes (.error .endOfInput) []
  | tooLarge {head : Header} (hl : head.identifier.length ≤ 6) (hm : max < head.length)
      (rest : Bytes) :
      Reads max (head.octets ++ rest) (.error (.elementTooLarge head.length max)) rest
  | element {head : Header} {content rest : Bytes} {e : Element}
      (hl : head.identifier.length ≤ 6) (hm : head.length ≤ max)
      (hc : content.length = head.length)
      (he : Element.read (head.octets ++ content ++ rest) = .ok (e, rest)) :
      Reads max (head.octets ++ content ++ rest) (.ok (some e)) rest
  | malformed {head : Header} {content rest : Bytes} {err : DecodeError}
      (hl : head.identifier.length ≤ 6) (hm : head.length ≤ max)
      (hc : content.length = head.length)
      (he : Element.read (head.octets ++ content ++ rest) = .error err) :
      Reads max (head.octets ++ content ++ rest) (.error (.decode err)) rest

theorem groups_cases (room : Nat) (bytes : Bytes) :
    (∃ gs rest, bytes = gs ++ rest ∧ IsGroups gs ∧ gs.length ≤ room) ∨
    (∃ gs rest, bytes = gs ++ rest ∧ (∀ g ∈ gs, 128 ≤ g.toNat) ∧ gs.length = room) ∨
    ((∀ g ∈ bytes, 128 ≤ g.toNat) ∧ bytes.length < room) := by
  induction room generalizing bytes with
  | zero => exact .inr (.inl ⟨[], bytes, rfl, by simp, rfl⟩)
  | succ room ih =>
    cases bytes with
    | nil => exact .inr (.inr ⟨by simp, by simp⟩)
    | cons b bytes =>
      by_cases hb : b.toNat < 128
      · exact .inl ⟨[b], bytes, rfl, .last hb, by simp⟩
      · have hb' : 128 ≤ b.toNat := by omega
        rcases ih bytes with ⟨gs, rest, rfl, hg, hl⟩ | ⟨gs, rest, rfl, hg, hl⟩ | ⟨hg, hl⟩
        · exact .inl ⟨b :: gs, rest, rfl, .more hb' hg, by simpa using hl⟩
        · exact .inr (.inl
            ⟨b :: gs, rest, rfl, List.forall_mem_cons.2 ⟨hb', hg⟩, by simpa using hl⟩)
        · exact .inr (.inr ⟨List.forall_mem_cons.2 ⟨hb', hg⟩, by simpa using hl⟩)

theorem length_cases (bytes : Bytes) :
    (∃ size n rest, bytes = size ++ rest ∧ IsLength size n) ∨
    (∃ mark rest, bytes = mark :: rest ∧ (mark.toNat = 128 ∨ 132 < mark.toNat)) ∨
    bytes = [] ∨
    (∃ mark ds, bytes = mark :: ds ∧ ds.length + 128 < mark.toNat ∧ mark.toNat ≤ 132) := by
  cases bytes with
  | nil => exact .inr (.inr (.inl rfl))
  | cons mark bytes =>
    by_cases hs : mark.toNat < 128
    · exact .inl ⟨[mark], _, bytes, rfl, .short hs⟩
    · by_cases hu : mark.toNat = 128 ∨ 132 < mark.toNat
      · exact .inr (.inl ⟨mark, bytes, rfl, hu⟩)
      · by_cases hd : bytes.length + 128 < mark.toNat
        · exact .inr (.inr (.inr ⟨mark, bytes, rfl, hd, by omega⟩))
        · refine .inl ⟨_, _, bytes.drop (mark.toNat - 128), ?_,
            .of_mark (by omega) (by omega) (show mark.toNat - 128 ≤ bytes.length by omega)⟩
          rw [List.cons_append, List.take_append_drop]

theorem exists_reads_of_isIdentifier (max : Nat) {id : Bytes} (hid : IsIdentifier id)
    (hl : id.length ≤ 6) (bytes : Bytes) : ∃ r left, Reads max (id ++ bytes) r left := by
  rcases length_cases bytes with ⟨size, n, body, rfl, hn⟩ | ⟨mark, rest, rfl, hm⟩ | rfl |
    ⟨mark, ds, rfl, hd, hm⟩
  · let head : Header := ⟨id, size, n, hid, hn⟩
    have hl : head.identifier.length ≤ 6 := hl
    rw [← List.append_assoc]
    by_cases hm : max < n
    · exact ⟨_, _, .tooLarge hl hm body⟩
    · by_cases hb : body.length < n
      · exact ⟨_, _, .truncated (.content hl (Nat.not_lt.1 hm) hb)⟩
      · have hc : (body.take n).length = n := by
          rw [List.length_take]
          omega
        rw [← List.take_append_drop n body, ← List.append_assoc]
        have hr := Element.read_header head hc (body.drop n)
        cases he : Element.decode (head.octets ++ body.take n) with
        | error err =>
          rw [he] at hr
          exact ⟨_, _, .malformed hl (Nat.not_lt.1 hm) hc hr⟩
        | ok e =>
          rw [he] at hr
          exact ⟨_, _, .element hl (Nat.not_lt.1 hm) hc hr⟩
  · exact ⟨_, _, .unsupported hid hl hm rest⟩
  · rw [List.append_nil]
    exact ⟨_, _, .truncated (.noLength hid hl)⟩
  · exact ⟨_, _, .truncated (.length hid hl hd hm)⟩

/-- There is no octet at which it is open how to go on. -/
theorem exists_reads (max : Nat) (bytes : Bytes) : ∃ r left, Reads max bytes r left := by
  cases bytes with
  | nil => exact ⟨_, _, .nothing⟩
  | cons b bytes =>
    by_cases hb : b.toNat % 32 = 31
    · rcases groups_cases 5 bytes with ⟨gs, rest, rfl, hg, hl⟩ | ⟨gs, rest, rfl, hg, hl⟩ | ⟨hg, hl⟩
      · exact exists_reads_of_isIdentifier max (.high hb hg) (Nat.succ_le_succ hl) rest
      · exact ⟨_, _, .overlong hb hg hl rest⟩
      · exact ⟨_, _, .truncated (.identifier hb hg hl)⟩
    · exact exists_reads_of_isIdentifier max (.low (by omega)) (by simp) bytes

def afterLength (max : Nat) (id size : Bytes) (n : Nat) : Step (Option Element) :=
  if n > max then .fail (.elementTooLarge n max)
  else (octets n).bind fun content s ↦
    (((Element.decode (id ++ size ++ content)).mapError .decode).map some, s)

def afterFirst (max : Nat) (b : UInt8) : Step (Option Element) :=
  (identifier b).bind fun id ↦ length.bind fun p ↦ afterLength max id p.1 p.2

namespace Step.Runs

variable {max : Nat}

theorem read_nil : (read max).Runs [] (.ok none) [] := by
  intro source hs
  have hn := source.next?_flatten
  rw [hs] at hn
  have hb := Option.map_eq_none_iff.1 hn
  simp only [read, hb, List.flatten_nil, and_self]

theorem read_cons {b : UInt8} {rest left : Bytes} {r : Except Failure (Option Element)}
    (h : (afterFirst max b).Runs rest r left) : (read max).Runs (b :: rest) r left := by
  intro source hs
  have hn := source.next?_flatten
  rw [hs] at hn
  obtain ⟨⟨b', rest'⟩, hb, he⟩ := Option.map_eq_some_iff.1 hn
  cases he
  simp only [read, hb]
  exact h rest' rfl

theorem read_of_isIdentifier {id body left : Bytes} {r : Except Failure (Option Element)}
    (hid : IsIdentifier id) (hl : id.length ≤ 6)
    (h : (Stream.length.bind fun p ↦ afterLength max id p.1 p.2).Runs body r left) :
    (read max).Runs (id ++ body) r left := by
  obtain ⟨b, gs, rfl⟩ : ∃ b gs, id = b :: gs := by
    cases hid with
    | low hb => exact ⟨_, _, rfl⟩
    | high hb hg => exact ⟨_, _, rfl⟩
  exact read_cons (bind (identifier hid hl body) h)

theorem read_overlong {b : UInt8} {gs : Bytes} (hb : b.toNat % 32 = 31)
    (hg : ∀ g ∈ gs, 128 ≤ g.toNat) (hl : gs.length = 5) (rest : Bytes) :
    (read max).Runs (b :: gs ++ rest) (.error (.decode overlongIdentifier)) rest := by
  have ho := groups_overlong hg rest
  rw [hl] at ho
  refine read_cons (bind_error ?_)
  rw [Stream.identifier, if_pos hb]
  exact bind_error ho

theorem read_unsupported {id : Bytes} {mark : UInt8} (hid : IsIdentifier id)
    (hl : id.length ≤ 6) (hm : mark.toNat = 128 ∨ 132 < mark.toNat) (rest : Bytes) :
    (read max).Runs (id ++ mark :: rest) (.error (.decode (unsupportedForm mark))) rest :=
  read_of_isIdentifier hid hl (bind_error (length_unsupported hm rest))

theorem read_header {head : Header} (hl : head.identifier.length ≤ 6) {body left : Bytes}
    {r : Except Failure (Option Element)}
    (h : (afterLength max head.identifier head.size head.length).Runs body r left) :
    (read max).Runs (head.octets ++ body) r left := by
  rw [Header.octets, List.append_assoc]
  exact read_of_isIdentifier head.isIdentifier hl (bind (length head.isLength body) h)

theorem read_tooLarge {head : Header} (hl : head.identifier.length ≤ 6)
    (hm : max < head.length) (rest : Bytes) :
    (read max).Runs (head.octets ++ rest) (.error (.elementTooLarge head.length max)) rest := by
  refine read_header hl ?_
  rw [afterLength, if_pos hm]
  exact fail _ _

theorem read_element {head : Header} {content : Bytes} (hl : head.identifier.length ≤ 6)
    (hm : head.length ≤ max) (hc : content.length = head.length) (rest : Bytes) :
    (read max).Runs (head.octets ++ content ++ rest)
      (((Element.decode (head.octets ++ content)).mapError .decode).map some) rest := by
  rw [List.append_assoc]
  refine read_header hl ?_
  rw [afterLength, if_neg (by omega), ← hc]
  exact bind (octets content rest) fun _ h ↦ ⟨rfl, h⟩

theorem read_truncated {bytes : Bytes} (h : Truncated max bytes) :
    (read max).Runs bytes (.error .endOfInput) [] := by
  cases h with
  | identifier hb hg hl =>
    refine read_cons (bind_error ?_)
    rw [Stream.identifier, if_pos hb]
    exact bind_error (groups_truncated hg hl)
  | noLength hid hl =>
    rw [← List.append_nil bytes]
    exact read_of_isIdentifier hid hl (bind_error (bind_error octet_nil))
  | length hid hl hd hm =>
    exact read_of_isIdentifier hid hl (bind_error (length_truncated hd hm))
  | @content head content hl hm hc =>
    refine read_header hl ?_
    rw [afterLength, if_neg (by omega)]
    exact bind_error (octets_short hc)

theorem of_reads {bytes left : Bytes} {r : Except Failure (Option Element)}
    (h : Reads max bytes r left) : (read max).Runs bytes r left := by
  cases h with
  | nothing => exact read_nil
  | overlong hb hg hl => exact read_overlong hb hg hl left
  | unsupported hid hl hm => exact read_unsupported hid hl hm left
  | truncated ht => exact read_truncated ht
  | tooLarge hl hm => exact read_tooLarge hl hm left
  | element hl hm hc he =>
    have hr := read_element hl hm hc left
    rw [Element.read_header _ hc, map_eq_ok] at he
    obtain ⟨e', he, hp⟩ := he
    cases hp
    rwa [he] at hr
  | malformed hl hm hc he =>
    have hr := read_element hl hm hc left
    rw [Element.read_header _ hc] at he
    rwa [map_eq_error.1 he] at hr

end Step.Runs

def result (max : Nat) (source : Source) : Except Failure (Option Element) × Bytes :=
  ((read max source).1, (read max source).2.flatten)

/-- A reading does what the octets of the stream say, in whatever chunks they come. -/
theorem result_eq_iff {max : Nat} {source : Source} {r : Except Failure (Option Element)}
    {left : Bytes} : result max source = (r, left) ↔ Reads max source.flatten r left := by
  constructor
  · intro h
    obtain ⟨r', left', h'⟩ := exists_reads max source.flatten
    obtain ⟨hr, hl⟩ := Step.Runs.of_reads h' source rfl
    rw [result, hr, hl] at h
    cases h
    exact h'
  · intro h
    obtain ⟨hr, hl⟩ := Step.Runs.of_reads h source rfl
    rw [result, hr, hl]

def Framed (max : Nat) (bytes rest : Bytes) : Prop :=
  ∃ (head : Header) (content : Bytes), bytes = head.octets ++ content ++ rest ∧
    content.length = head.length ∧ head.identifier.length ≤ 6 ∧ head.length ≤ max

/-- An identifier of more than six octets goes on in its sixth. -/
theorem reads_of_long (max : Nat) {id : Bytes} (hid : IsIdentifier id) (hl : 6 < id.length)
    (bytes : Bytes) :
    ∃ left, Reads max (id ++ bytes) (.error (.decode overlongIdentifier)) left := by
  cases hid with
  | low hb => simp at hl
  | @high b gs hb hg =>
    rw [List.length_cons] at hl
    have hs : b :: gs ++ bytes = b :: gs.take 5 ++ (gs.drop 5 ++ bytes) := by
      rw [List.cons_append, List.cons_append, ← List.append_assoc, List.take_append_drop]
    refine ⟨gs.drop 5 ++ bytes, ?_⟩
    rw [hs]
    exact .overlong hb (hg.continued (by omega)) (by rw [List.length_take]; omega) _

theorem Truncated.read_error {max : Nat} {bytes : Bytes} (h : Truncated max bytes) :
    ∃ err, Element.read bytes = .error err := by
  cases hr : Element.read bytes with
  | error err => exact ⟨err, rfl⟩
  | ok p =>
    obtain ⟨e, rest⟩ := p
    have ht := Step.Runs.read_truncated h
    obtain ⟨head, content, rfl, hc⟩ := Element.readWithin_eq_ok hr
    by_cases hl : head.identifier.length ≤ 6
    · by_cases hm : head.length ≤ max
      · have he := (Step.Runs.of_reads (.element hl hm hc hr)).unique ht
        cases he.1
      · rw [List.append_assoc] at ht
        have he := (Step.Runs.read_tooLarge hl (Nat.not_le.1 hm) (content ++ rest)).unique ht
        cases he.1
    · rw [Header.octets, List.append_assoc, List.append_assoc] at ht
      obtain ⟨left, ho⟩ := reads_of_long max head.isIdentifier (Nat.not_le.1 hl)
        (head.size ++ (content ++ rest))
      have he := (Step.Runs.of_reads ho).unique ht
      cases he.1

section Outcomes

variable {max : Nat} {bytes rest : Bytes}

theorem reads_none_iff : Reads max bytes (.ok none) rest ↔ rest = [] ∧ bytes = [] := by
  constructor
  · intro h
    cases h with
    | nothing => exact ⟨rfl, rfl⟩
  · rintro ⟨rfl, rfl⟩
    exact .nothing

theorem reads_some_iff {e : Element} :
    Reads max bytes (.ok (some e)) rest ↔
      Element.read bytes = .ok (e, rest) ∧ Framed max bytes rest := by
  constructor
  · intro h
    cases h with
    | element hl hm hc he => exact ⟨he, _, _, rfl, hc, hl, hm⟩
  · rintro ⟨he, head, content, rfl, hc, hl, hm⟩
    exact .element hl hm hc he

theorem reads_tooLarge_iff {n limit : Nat} :
    Reads max bytes (.error (.elementTooLarge n limit)) rest ↔
      limit = max ∧ max < n ∧ ∃ head : Header, bytes = head.octets ++ rest ∧
        head.identifier.length ≤ 6 ∧ head.length = n := by
  constructor
  · intro h
    cases h with
    | tooLarge hl hm => exact ⟨rfl, hm, _, rfl, hl, rfl⟩
  · rintro ⟨rfl, hm, head, rfl, hl, rfl⟩
    exact .tooLarge hl hm rest

theorem reads_endOfInput_iff :
    Reads max bytes (.error .endOfInput) rest ↔ rest = [] ∧ Truncated max bytes := by
  constructor
  · intro h
    cases h with
    | truncated ht => exact ⟨rfl, ht⟩
  · rintro ⟨rfl, ht⟩
    exact .truncated ht

theorem reads_decode_iff {err : DecodeError} :
    Reads max bytes (.error (.decode err)) rest ↔
      (err = overlongIdentifier ∧ ∃ b gs, bytes = b :: gs ++ rest ∧
        b.toNat % 32 = 31 ∧ gs.length = 5 ∧ ∀ g ∈ gs, 128 ≤ g.toNat) ∨
      (∃ id mark, err = unsupportedForm mark ∧ bytes = id ++ mark :: rest ∧
        IsIdentifier id ∧ id.length ≤ 6 ∧ (mark.toNat = 128 ∨ 132 < mark.toNat)) ∨
      (Element.read bytes = .error err ∧ Framed max bytes rest) := by
  constructor
  · intro h
    cases h with
    | overlong hb hg hl => exact .inl ⟨rfl, _, _, rfl, hb, hl, hg⟩
    | unsupported hid hl hm => exact .inr (.inl ⟨_, _, rfl, rfl, hid, hl, hm⟩)
    | malformed hl hm hc he => exact .inr (.inr ⟨he, _, _, rfl, hc, hl, hm⟩)
  · rintro (⟨rfl, b, gs, rfl, hb, hl, hg⟩ | ⟨id, mark, rfl, rfl, hid, hl, hm⟩ |
      ⟨he, head, content, rfl, hc, hl, hm⟩)
    · exact .overlong hb hg hl rest
    · exact .unsupported hid hl hm rest
    · exact .malformed hl hm hc he

end Outcomes

/-- One reading of a stream is settled by its octets and the limit alone. It finds no
element only in no octets, and otherwise the element that the octets begin with, unless its
identifier has more than six octets or its content is longer than the limit. A content that
is too long is left where it is. The stream ends too early only where the octets do not hold
an element either, and an element that cannot be read is passed over as a whole. -/
theorem read_refines (max : Nat) (source : Source) :
    (∀ other : Source, other.flatten = source.flatten → result max other = result max source) ∧
    ((result max source).1 = .ok none ↔ source.flatten = []) ∧
    (∀ e rest, result max source = (.ok (some e), rest) ↔
      Element.read source.flatten = .ok (e, rest) ∧ Framed max source.flatten rest) ∧
    (∀ n limit rest, result max source = (.error (.elementTooLarge n limit), rest) ↔
      limit = max ∧ max < n ∧ ∃ head : Header, source.flatten = head.octets ++ rest ∧
        head.identifier.length ≤ 6 ∧ head.length = n) ∧
    (∀ rest, result max source = (.error .endOfInput, rest) ↔
      rest = [] ∧ Truncated max source.flatten) ∧
    ((result max source).1 = .error .endOfInput →
      ∃ err, Element.read source.flatten = .error err) ∧
    (∀ err rest, result max source = (.error (.decode err), rest) ↔
      (err = overlongIdentifier ∧ ∃ b gs, source.flatten = b :: gs ++ rest ∧
        b.toNat % 32 = 31 ∧ gs.length = 5 ∧ ∀ g ∈ gs, 128 ≤ g.toNat) ∨
      (∃ id mark, err = unsupportedForm mark ∧ source.flatten = id ++ mark :: rest ∧
        IsIdentifier id ∧ id.length ≤ 6 ∧ (mark.toNat = 128 ∨ 132 < mark.toNat)) ∨
      (Element.read source.flatten = .error err ∧ Framed max source.flatten rest)) := by
  have hreads : Reads max source.flatten (result max source).1 (result max source).2 :=
    result_eq_iff.1 rfl
  refine ⟨?_, ⟨?_, ?_⟩, fun e rest ↦ result_eq_iff.trans reads_some_iff,
    fun n limit rest ↦ result_eq_iff.trans reads_tooLarge_iff,
    fun rest ↦ result_eq_iff.trans reads_endOfInput_iff, ?_,
    fun err rest ↦ result_eq_iff.trans reads_decode_iff⟩
  · intro other ho
    rw [← ho] at hreads
    exact result_eq_iff.2 hreads
  · intro h
    rw [h] at hreads
    exact (reads_none_iff.1 hreads).2
  · intro h
    rw [result_eq_iff.2 (reads_none_iff.2 ⟨rfl, h⟩)]
  · intro h
    rw [h] at hreads
    exact (reads_endOfInput_iff.1 hreads).2.read_error

/-- A sequence with a padded length, cut inside its header and inside its content, and a
content that ends an octet too early. -/
theorem read_refines_cut :
    (([[0x30], [0x81, 2, 5], [0, 4]] : Source).flatten = [0x30, 0x81, 2, 5, 0, 4] ∧
      result 2 [[0x30], [0x81, 2, 5], [0, 4]] = result 2 [[0x30, 0x81, 2, 5, 0, 4]]) ∧
    ((result 2 [[4, 0x81], [2, 0x61]]).1 = .error .endOfInput ∧
      ∃ err, Element.read [4, 0x81, 2, 0x61] = .error err) :=
  ⟨⟨rfl, (read_refines 2 [[0x30, 0x81, 2, 5, 0, 4]]).1 _ rfl⟩,
    ⟨rfl, (read_refines 2 [[4, 0x81], [2, 0x61]]).2.2.2.2.2.1 rfl⟩⟩

end Stream

end LdapCodec.Ber
