import LdapCodec.Proofs.Ber.Stream

namespace LdapCodec.Ber.Stream

variable {max : Nat}

/-- An identifier of at most six octets, a length, and as many octets of content as it says.
Nothing is asked of what the identifier and the content spell. -/
structure Frame (max : Nat) where
  head : Header
  content : Bytes
  length_content : content.length = head.length
  length_identifier_le : head.identifier.length ≤ 6
  length_le : head.length ≤ max

namespace Frame

def octets (f : Frame max) : Bytes := f.head.octets ++ f.content

def outcome (f : Frame max) : Except Failure (Option Element) :=
  match Element.decode f.octets with
  | .ok e => .ok (some e)
  | .error err => .error (.decode err)

def octetsAll (frames : List (Frame max)) : Bytes := (frames.map octets).flatten

@[simp]
theorem octetsAll_cons (f : Frame max) (frames : List (Frame max)) :
    octetsAll (f :: frames) = f.octets ++ octetsAll frames := rfl

theorem octetsAll_append (fs gs : List (Frame max)) :
    octetsAll (fs ++ gs) = octetsAll fs ++ octetsAll gs := by
  simp [octetsAll]

theorem runs_read (f : Frame max) (rest : Bytes) :
    (read max).Runs (f.octets ++ rest) f.outcome rest := by
  have ho : f.outcome = ((Element.decode f.octets).mapError .decode).map some := by
    rw [outcome]
    cases Element.decode f.octets with
    | error err => rfl
    | ok e => rfl
  rw [ho]
  exact Step.Runs.read_element f.length_identifier_le f.length_le f.length_content rest

end Frame

theorem Reads.append {bytes left : Bytes} {r : Except Failure (Option Element)}
    (h : Reads max bytes r left) (hn : r ≠ .ok none) (he : r ≠ .error .endOfInput)
    (more : Bytes) : Reads max (bytes ++ more) r (left ++ more) := by
  cases h with
  | nothing => exact absurd rfl hn
  | overlong hb hg hl =>
    rw [List.append_assoc]
    exact .overlong hb hg hl (left ++ more)
  | unsupported hid hl hm =>
    rw [List.append_assoc, List.cons_append]
    exact .unsupported hid hl hm (left ++ more)
  | truncated ht => exact absurd rfl he
  | tooLarge hl hm =>
    rw [List.append_assoc]
    exact .tooLarge hl hm (left ++ more)
  | @element head content _ e hl hm hc hr =>
    rw [List.append_assoc]
    refine .element hl hm hc ?_
    rw [Element.read_header head hc, map_eq_ok] at hr ⊢
    obtain ⟨e', hd, hp⟩ := hr
    cases hp
    exact ⟨e, hd, rfl⟩
  | @malformed head content _ err hl hm hc hr =>
    rw [List.append_assoc]
    refine .malformed hl hm hc ?_
    rw [Element.read_header head hc, map_eq_error] at hr ⊢
    exact hr

/-- Where a frame is cut, the octets end too early and nothing else is wrong with them. -/
theorem Frame.truncated_of_cut {f : Frame max} {cut more : Bytes} (hf : f.octets = cut ++ more)
    (hc : cut ≠ []) (hm : more ≠ []) : Truncated max cut := by
  obtain ⟨r, left, h⟩ := exists_reads max cut
  by_cases hn : r = .ok none
  · rw [hn] at h
    exact absurd (reads_none_iff.1 h).2 hc
  · by_cases he : r = .error .endOfInput
    · rw [he] at h
      exact (reads_endOfInput_iff.1 h).2
    · -- Any other reading of the cut would be that of the frame, which leaves nothing over.
      have hwhole := Step.Runs.of_reads (h.append hn he more)
      have hframe := f.runs_read []
      rw [List.append_nil, hf] at hframe
      have hleft : left ++ more = [] := (hwhole.unique hframe).2
      exact absurd (List.append_eq_nil_iff.1 hleft).2 hm

/-- The outcomes of readings one after another, and what the stream delivers after them. -/
def readings (max : Nat) : Nat → Source → List (Except Failure (Option Element)) × Source
  | 0, source => ([], source)
  | n + 1, source =>
    let (r, source) := read max source
    let (rs, source) := readings max n source
    (r :: rs, source)

/-- However `bytes` are cut into chunks, the readings have the outcomes `rs` and leave `left`. -/
def RunsMany (max : Nat) (bytes : Bytes) (rs : List (Except Failure (Option Element)))
    (left : Bytes) : Prop :=
  ∀ source : Source, source.flatten = bytes →
    (readings max rs.length source).1 = rs ∧ (readings max rs.length source).2.flatten = left

namespace RunsMany

theorem nil (bytes : Bytes) : RunsMany max bytes [] bytes := fun _ hs ↦ ⟨rfl, hs⟩

theorem cons {bytes between left : Bytes} {r : Except Failure (Option Element)}
    {rs : List (Except Failure (Option Element))} (h : (read max).Runs bytes r between)
    (hs : RunsMany max between rs left) : RunsMany max bytes (r :: rs) left := by
  intro source hb
  obtain ⟨hr, hl⟩ := h source hb
  obtain ⟨hrs, hleft⟩ := hs (read max source).2 hl
  simp only [List.length_cons, readings, hr, hrs, hleft, and_self]

theorem ended (n : Nat) : RunsMany max [] (List.replicate n (.ok none)) [] := by
  induction n with
  | zero => exact nil []
  | succ n ih => exact cons Step.Runs.read_nil ih

theorem frames (frames : List (Frame max)) {bytes left : Bytes}
    {rs : List (Except Failure (Option Element))} (h : RunsMany max bytes rs left) :
    RunsMany max (Frame.octetsAll frames ++ bytes) (frames.map Frame.outcome ++ rs) left := by
  induction frames with
  | nil => exact h
  | cons f frames ih =>
    rw [Frame.octetsAll_cons, List.append_assoc]
    exact cons (f.runs_read _) ih

theorem cut {last : Frame max} {cut more : Bytes} (hlast : last.octets = cut ++ more)
    (hmore : more ≠ []) (later : Nat) :
    RunsMany max cut
      ((if cut = [] then .ok none else .error .endOfInput) :: List.replicate later (.ok none))
      [] := by
  refine cons ?_ (ended later)
  by_cases hc : cut = []
  · rw [if_pos hc, hc]
    exact Step.Runs.read_nil
  · rw [if_neg hc]
    exact Step.Runs.read_truncated (Frame.truncated_of_cut hlast hc hmore)

end RunsMany

/-- Readings of a stream give each frame once and in its place, also after frames that hold
no element. Behind the last one the stream is at its end if nothing follows, and ends too early
if a frame has begun. From then on it is at its end. -/
theorem readings_of_frames (frames : List (Frame max)) (last : Frame max) {cut more : Bytes}
    (hlast : last.octets = cut ++ more) (hmore : more ≠ []) (source : Source)
    (hs : source.flatten = Frame.octetsAll frames ++ cut) :
    (∀ later, (readings max (frames.length + 1 + later) source).1 =
      frames.map Frame.outcome ++
        (if cut = [] then .ok none else .error .endOfInput) :: List.replicate later (.ok none)) ∧
    ∀ k ≤ frames.length,
      (readings max k source).2.flatten = Frame.octetsAll (frames.drop k) ++ cut := by
  constructor
  · intro later
    have h := (RunsMany.frames frames (RunsMany.cut hlast hmore later) source hs).1
    simp only [List.length_append, List.length_map, List.length_cons, List.length_replicate] at h
    rwa [Nat.add_assoc, Nat.add_comm 1 later]
  · intro k hk
    have hsplit : source.flatten =
        Frame.octetsAll (frames.take k) ++ (Frame.octetsAll (frames.drop k) ++ cut) := by
      rw [hs, ← List.append_assoc, ← Frame.octetsAll_append, List.take_append_drop]
    have h := (RunsMany.frames (frames.take k) (RunsMany.nil _) source hsplit).2
    rwa [List.append_nil, List.length_map, List.length_take, Nat.min_eq_left hk] at h

/-- A sequence whose child goes past its end, a tag number of more than 32 bits, a null, and
text with a padded length that breaks off, in chunks that end inside of each. -/
theorem readings_of_frames_mixed :
    let sequence : Frame 16 := ⟨⟨[0x30], [2], 2, .low (by decide), .short (by decide)⟩, [4, 9],
      rfl, by decide, by decide⟩
    let wide : Frame 16 := ⟨⟨[0x1F, 0x90, 0x80, 0x80, 0x80, 0], [0], 0,
      .high (by decide) (.more (by decide) (.more (by decide) (.more (by decide)
        (.more (by decide) (.last (by decide)))))), .short (by decide)⟩, [],
      rfl, by decide, by decide⟩
    let null : Frame 16 := ⟨⟨[5], [0], 0, .low (by decide), .short (by decide)⟩, [],
      rfl, by decide, by decide⟩
    let text : Frame 16 := ⟨⟨[4], [0x81, 2], 2, .low (by decide),
      .long rfl (by decide) (by decide)⟩, [0x61, 0x62], rfl, by decide, by decide⟩
    let source : Source := [[0x30], [2, 4], [9, 0x1F, 0x90, 0x80], [0x80, 0x80, 0, 0, 5],
      [0, 4, 0x81], [2, 0x61]]
    text.octets = [4, 0x81, 2, 0x61] ++ [0x62] ∧ ([0x62] : Bytes) ≠ [] ∧
      source.flatten = Frame.octetsAll [sequence, wide, null] ++ [4, 0x81, 2, 0x61] ∧
      (readings 16 6 source).1 =
        [.error (.decode (.malformedLength "Declared length 9 exceeds remaining 0 bytes")),
          .error (.decode (.unexpectedTag "Tag number does not fit in 32 bits")),
          .ok (some .null), .error .endOfInput, .ok none, .ok none] := by
  intro sequence wide null text source
  have hl : text.octets = [4, 0x81, 2, 0x61] ++ [0x62] := rfl
  have hs : source.flatten = Frame.octetsAll [sequence, wide, null] ++ [4, 0x81, 2, 0x61] := rfl
  have hsequence : sequence.outcome =
      .error (.decode (.malformedLength "Declared length 9 exceeds remaining 0 bytes")) := by
    rfl
  have hwide : wide.outcome =
      .error (.decode (.unexpectedTag "Tag number does not fit in 32 bits")) := rfl
  have hnull : null.outcome = .ok (some .null) := rfl
  refine ⟨hl, by simp, hs, ?_⟩
  have h := (readings_of_frames [sequence, wide, null] text hl (by simp) source hs).1 2
  simpa [hsequence, hwide, hnull] using h

end LdapCodec.Ber.Stream
