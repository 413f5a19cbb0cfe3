import LdapCodec.Proofs.Ber.Locality

namespace LdapCodec.Ber.Cursor

variable {α β : Type} {c : Cursor}

@[simp]
theorem length_unread (c : Cursor) : c.unread.length = c.remaining := List.length_drop

@[simp]
theorem unread_ofBytes (bytes : Bytes) : (ofBytes bytes).unread = bytes := rfl

theorem unread_advance (c : Cursor) (n : Nat) : (c.advance n).unread = c.unread.drop n :=
  List.drop_drop.symm

theorem remaining_advance (c : Cursor) (n : Nat) : (c.advance n).remaining = c.remaining - n :=
  (Nat.sub_sub _ _ _).symm

theorem advance_advance (c : Cursor) (m n : Nat) : (c.advance m).advance n = c.advance (m + n) := by
  simp only [advance, Nat.add_assoc]

theorem hasRemaining_iff : c.hasRemaining = true ↔ c.unread ≠ [] := by
  rw [← List.length_pos_iff, length_unread, hasRemaining, decide_eq_true_iff, remaining]
  omega

theorem not_hasRemaining_iff : ¬c.hasRemaining = true ↔ c.unread = [] := by
  rw [hasRemaining_iff, not_not]

theorem unread_of_append {taken rest : Bytes} (hu : c.unread = taken ++ rest) :
    (c.advance taken.length).unread = rest := by
  rw [unread_advance, hu, List.drop_left]

theorem remaining_sub_of_append {taken rest : Bytes} (hu : c.unread = taken ++ rest) :
    c.remaining - rest.length = taken.length := by
  rw [← length_unread, hu, List.length_append, Nat.add_sub_cancel_right]

namespace Step

variable {step : Step α} {f : α → Step β} {after : Cursor}

theorem bind_of_ok {x : α} (h : step c = (.ok x, after)) : step.bind f c = f x after := by
  rw [bind, h]

theorem bind_of_error {e : DecodeError} (h : step c = (.error e, after)) :
    step.bind f c = (.error e, after) := by
  rw [bind, h]

end Step

section

variable {read : Bytes → Except DecodeError (α × Bytes)}

theorem front_of_ok {taken rest : Bytes} {x : α} (hu : c.unread = taken ++ rest)
    (hr : read c.unread = .ok (x, rest)) : front read c = (.ok x, c.advance taken.length) := by
  rw [front, hr, ← remaining_sub_of_append hu]

theorem front_of_error {e : DecodeError} (hr : read c.unread = .error e) :
    front read c = (.error e, c) := by
  rw [front, hr]

theorem octets_eq (n : Nat) (c : Cursor) :
    octets n c = if n ≤ c.unread.length then (.ok (c.unread.take n), c.advance n)
      else (.error (.malformedLength
        s!"Declared length {n} exceeds remaining {c.unread.length} bytes"), c) := by
  rw [octets, length_unread]
  by_cases hn : n ≤ c.remaining
  · rw [if_pos hn, if_neg (by omega)]
  · rw [if_neg hn, if_pos (by omega)]

end

/-- The parts of an element are read as the element is, and no further than it can be read. -/
theorem parts_eq (c : Cursor) :
    (∃ t taken rest, Tlv.read c.unread = .ok (t, rest) ∧ c.unread = taken ++ rest ∧
      parts c = (.ok t, c.advance taken.length)) ∨
    ∃ e n, Tlv.read c.unread = .error e ∧ parts c = (.error e, c.advance n) := by
  unfold parts Tlv.read
  cases htag : Tag.read c.unread with
  | error e => exact .inr ⟨e, 0, rfl, Step.bind_of_error (front_of_error htag)⟩
  | ok p =>
    obtain ⟨tag, rest⟩ := p
    obtain ⟨id, -, hid⟩ := Tag.isIdentifier_of_read htag
    rw [Step.bind_of_ok (front_of_ok hid htag), ok_bind]
    have hrest := unread_of_append hid
    cases hlength : Length.read rest with
    | error e =>
      exact .inr ⟨e, id.length, by simp only [hlength]; rfl,
        Step.bind_of_error (front_of_error (by rw [hrest, hlength]))⟩
    | ok p =>
      obtain ⟨length, body⟩ := p
      obtain ⟨size, -, hsize⟩ := Length.isLength_of_read hlength
      have hunread : (c.advance id.length).unread = size ++ body := hrest.trans hsize
      have hbody : (c.advance (id.length + size.length)).unread = body := by
        rw [← advance_advance]
        exact unread_of_append hunread
      rw [Step.bind_of_ok (front_of_ok hunread (by rw [hrest, hlength])), advance_advance]
      simp only [hlength, ok_bind]
      by_cases hn : length.value ≤ body.length
      · have hcontent : octets length.value (c.advance (id.length + size.length)) =
            (.ok (body.take length.value),
              c.advance (id.length + size.length + length.value)) := by
          rw [octets_eq, hbody, if_pos hn, advance_advance]
        refine .inl ⟨⟨tag, body.take length.value⟩, id ++ (size ++ body.take length.value),
          body.drop length.value, if_pos hn, ?_, ?_⟩
        · rw [hid, hsize, List.append_assoc, List.append_assoc, List.take_append_drop]
        · rw [Step.bind_of_ok hcontent]
          simp only [List.length_append, List.length_take_of_le hn, Nat.add_assoc]
      · refine .inr ⟨_, id.length + size.length, if_neg hn, Step.bind_of_error ?_⟩
        rw [octets_eq, hbody, if_neg hn]

/-- An element is read unopened from the unread octets, and nothing is gone over if it cannot. -/
theorem tlv_eq (c : Cursor) :
    c.tlv = match Tlv.read c.unread with
      | .ok (t, rest) =>
        (.ok (t, c.remaining - rest.length), c.advance (c.remaining - rest.length))
      | .error e => (.error e, c) := by
  rcases parts_eq c with ⟨t, taken, rest, hr, hu, hp⟩ | ⟨e, n, hr, hp⟩
  · have hn : (c.advance taken.length).position - c.position = taken.length :=
      Nat.add_sub_cancel_left _ _
    rw [tlv, hp, hr]
    simp only [hn, remaining_sub_of_append hu]
  · rw [tlv, hp, hr]
    rfl

theorem tlv_of_ok {t : Tlv} {taken rest : Bytes} (hu : c.unread = taken ++ rest)
    (hr : Tlv.read c.unread = .ok (t, rest)) :
    c.tlv = (.ok (t, taken.length), c.advance taken.length) := by
  rw [tlv_eq, hr, ← remaining_sub_of_append hu]

theorem tlv_of_error {e : DecodeError} (hr : Tlv.read c.unread = .error e) :
    c.tlv = (.error e, c) := by
  rw [tlv_eq, hr]

theorem elements_fst {element : Step Element}
    {read : Bytes → Except DecodeError (Element × Bytes)} (he : ∀ c, element c = front read c)
    (hread : ∀ bytes e rest, read bytes = .ok (e, rest) → ∃ taken, bytes = taken ++ rest)
    (steps : Nat) (c : Cursor) : (elements element steps c).1 = readMany read steps c.unread := by
  induction steps generalizing c with
  | zero =>
    rw [elements]
    by_cases hc : c.unread = []
    · rw [if_neg (not_hasRemaining_iff.2 hc), hc, readMany]
    · rw [if_pos (hasRemaining_iff.2 hc), readMany.eq_2 _ _ hc]
  | succ steps ih =>
    rw [elements]
    by_cases hc : c.unread = []
    · rw [if_neg (not_hasRemaining_iff.2 hc), hc, readMany]
    · rw [if_pos (hasRemaining_iff.2 hc), readMany.eq_3 _ _ _ hc]
      cases hr : read c.unread with
      | error err => rw [Step.bind_of_error ((he c).trans (front_of_error hr))]; rfl
      | ok p =>
        obtain ⟨e, rest⟩ := p
        obtain ⟨taken, hu⟩ := hread _ _ _ hr
        have hi := ih (c.advance taken.length)
        rw [unread_of_append hu] at hi
        rw [Step.bind_of_ok ((he c).trans (front_of_ok hu hr)), Step.bind, ok_bind]
        simp only [← hi]
        cases elements element steps (c.advance taken.length) with
        | mk r stop =>
          cases r with
          | error err => rfl
          | ok es => rfl

/-- Wherever reading an element fails, inside of it or of its children, the cursor is back at
its position afterwards. -/
theorem elementWithin_eq (levels : Nat) (c : Cursor) :
    c.elementWithin levels = front (Element.readWithin levels) c := by
  induction levels generalizing c with
  | zero =>
    rw [elementWithin, tlv_eq, front, Element.readWithin]
    cases Tlv.read c.unread with
    | error e => rfl
    | ok p =>
      simp only [ok_bind]
      split
      · rfl
      · rfl
  | succ levels ih =>
    rw [elementWithin, tlv_eq, front, Element.readWithin]
    cases Tlv.read c.unread with
    | error e => rfl
    | ok p =>
      obtain ⟨t, rest⟩ := p
      simp only [ok_bind]
      split
      · have hm := elements_fst ih (fun _ _ _ ↦ Element.exists_append_of_readWithin)
          t.content.length (ofBytes t.content)
        rw [unread_ofBytes] at hm
        rw [← hm]
        cases elements (elementWithin levels) t.content.length (ofBytes t.content) with
        | mk r stop =>
          cases r with
          | error e => rfl
          | ok children => rfl
      · rfl

theorem element_eq (c : Cursor) : c.element = front Element.read c :=
  elementWithin_eq Element.maxDepth c

/-- What a step gives, and how far it goes within the unread octets, depends on these only. -/
def Step.Local (step : Step α) : Prop :=
  ∀ c c' : Cursor, c'.unread = c.unread →
    ∃ r n, n ≤ c.remaining ∧ step c = (r, c.advance n) ∧ step c' = (r, c'.advance n)

namespace Step.Local

theorem front (read : Bytes → Except DecodeError (α × Bytes)) : Step.Local (front read) := by
  intro c c' hu
  have hl : c'.remaining = c.remaining := by rw [← length_unread, hu, length_unread]
  unfold Cursor.front
  rw [hu, hl]
  cases read c.unread with
  | error e => exact ⟨.error e, 0, Nat.zero_le _, rfl, rfl⟩
  | ok p => exact ⟨.ok p.1, c.remaining - p.2.length, Nat.sub_le _ _, rfl, rfl⟩

theorem pure (x : α) : Step.Local (fun c ↦ (.ok x, c)) :=
  fun _ _ _ ↦ ⟨.ok x, 0, Nat.zero_le _, rfl, rfl⟩

theorem bind {step : Step α} {f : α → Step β} (h : step.Local) (hf : ∀ x, (f x).Local) :
    (step.bind f).Local := by
  intro c c' hu
  obtain ⟨r, m, hm, hs, hs'⟩ := h c c' hu
  cases r with
  | error e => exact ⟨.error e, m, hm, bind_of_error hs, bind_of_error hs'⟩
  | ok x =>
    have hum : (c'.advance m).unread = (c.advance m).unread := by
      rw [unread_advance, unread_advance, hu]
    obtain ⟨r, n, hn, ht, ht'⟩ := hf x (c.advance m) (c'.advance m) hum
    rw [remaining_advance] at hn
    rw [advance_advance] at ht ht'
    exact ⟨r, m + n, by omega, (bind_of_ok hs).trans ht, (bind_of_ok hs').trans ht'⟩

theorem element : Step.Local Cursor.element := by
  rw [show Cursor.element = Cursor.front Element.read from funext element_eq]
  exact front Element.read

theorem tlv : Step.Local Cursor.tlv := by
  intro c c' hu
  have hl : c'.remaining = c.remaining := by rw [← length_unread, hu, length_unread]
  rw [tlv_eq, tlv_eq, hu, hl]
  cases Tlv.read c.unread with
  | error e => exact ⟨.error e, 0, Nat.zero_le _, rfl, rfl⟩
  | ok p => exact ⟨_, c.remaining - p.2.length, Nat.sub_le _ _, rfl, rfl⟩

theorem elements {element : Step Element} (h : element.Local) (steps : Nat) :
    (elements element steps).Local := by
  induction steps with
  | zero =>
    intro c c' hu
    simp only [Cursor.elements, hasRemaining_iff, hu]
    split
    · exact ⟨_, 0, Nat.zero_le _, rfl, rfl⟩
    · exact ⟨_, 0, Nat.zero_le _, rfl, rfl⟩
  | succ steps ih =>
    intro c c' hu
    simp only [Cursor.elements, hasRemaining_iff, hu]
    split
    · exact bind h (fun e ↦ bind ih fun es ↦ pure (e :: es)) c c' hu
    · exact ⟨_, 0, Nat.zero_le _, rfl, rfl⟩

theorem skip : Step.Local Cursor.skip := bind tlv fun p ↦ pure p.2

theorem all : Step.Local Cursor.all := by
  intro c c' hu
  have hl : c'.remaining = c.remaining := by rw [← length_unread, hu, length_unread]
  unfold Cursor.all
  rw [hl]
  exact elements element c.remaining c c' hu

end Step.Local

/-- Elements are read one after another from a cursor to another one. -/
inductive Passes : Cursor → List Element → Cursor → Prop
  | nil (c : Cursor) : Passes c [] c
  | cons {c next stop : Cursor} {e : Element} {es : List Element}
      (he : c.element = (.ok e, next)) (hes : Passes next es stop) : Passes c (e :: es) stop

/-- As many steps as there are octets are enough to come to the end, or to an element that
cannot be read. -/
theorem exists_passes {steps : Nat} {c : Cursor} (hs : c.remaining ≤ steps) :
    ∃ es stop, Passes c es stop ∧
      (stop.unread = [] ∧ elements element steps c = (.ok es, stop) ∨
        ∃ err, elements element steps c = (.error err, stop) ∧
          stop.element = (.error err, stop)) := by
  induction steps generalizing c with
  | zero =>
    have hu : c.unread = [] := List.eq_nil_of_length_eq_zero (by rw [length_unread]; omega)
    refine ⟨[], c, .nil c, .inl ⟨hu, ?_⟩⟩
    rw [elements, if_neg (not_hasRemaining_iff.2 hu)]
  | succ steps ih =>
    by_cases hu : c.unread = []
    · refine ⟨[], c, .nil c, .inl ⟨hu, ?_⟩⟩
      rw [elements, if_neg (not_hasRemaining_iff.2 hu)]
    · have hsucc : elements element (steps + 1) c =
          Step.bind element
            (fun e ↦ (elements element steps).bind fun es c ↦ (.ok (e :: es), c)) c := by
        rw [elements, if_pos (hasRemaining_iff.2 hu)]
      have he := c.element_eq
      rw [hsucc]
      cases hr : Element.read c.unread with
      | error err =>
        rw [front_of_error hr] at he
        exact ⟨[], c, .nil c, .inr ⟨err, Step.bind_of_error he, he⟩⟩
      | ok p =>
        obtain ⟨e, rest⟩ := p
        obtain ⟨part, hpart, -, hspells⟩ := Element.read_eq_ok_iff.1 hr
        have hpos := hspells.two_le_length
        rw [front_of_ok hpart hr] at he
        obtain ⟨es, stop, hpasses, hstop⟩ :=
          ih (c := c.advance part.length) (by rw [remaining_advance]; omega)
        refine ⟨e :: es, stop, .cons he hpasses, ?_⟩
        rw [Step.bind_of_ok he]
        rcases hstop with ⟨hend, hes⟩ | ⟨err, herr, hat⟩
        · exact .inl ⟨hend, Step.bind_of_ok hes⟩
        · exact .inr ⟨err, Step.bind_of_error herr, hat⟩

inductive Operation where
  | tlv
  | element
  | skip
  | all
  deriving DecidableEq, Repr

namespace Operation

abbrev Answer : Operation → Type
  | tlv => Tlv × Nat
  | element => Element
  | skip => Nat
  | all => List Element

def run : (operation : Operation) → Step operation.Answer
  | tlv => Cursor.tlv
  | element => Cursor.element
  | skip => Cursor.skip
  | all => Cursor.all

theorem run_local (operation : Operation) : operation.run.Local := by
  cases operation with
  | tlv => exact .tlv
  | element => exact .element
  | skip => exact .skip
  | all => exact .all

end Operation

def after (operations : List Operation) (c : Cursor) : Cursor :=
  operations.foldl (fun c operation ↦ (operation.run c).2) c

/-- What the operations do at a cursor: none stops inside of an element, and a failure to read
one takes nothing. -/
structure Atomic (c : Cursor) : Prop where
  tlv : (∃ err, c.tlv = (.error err, c) ∧ c.skip = (.error err, c)) ∨
    ∃ t n, c.tlv = (.ok (t, n), c.advance n) ∧ c.skip = (.ok n, c.advance n) ∧
      2 ≤ n ∧ n ≤ c.remaining ∧ t.SpelledBy (c.unread.take n)
  element : (∃ err, c.element = (.error err, c)) ∨
    ∃ e t n, c.element = (.ok e, c.advance n) ∧ c.tlv = (.ok (t, n), c.advance n) ∧
      c.skip = (.ok n, c.advance n) ∧ Spells (c.unread.take n) e
  all : ∃ es stop, Passes c es stop ∧
    (stop.position = c.buffer.length ∧ c.all = (.ok es, stop) ∨
      ∃ err, c.all = (.error err, stop) ∧ stop.element = (.error err, stop))
  unread : ∀ (operation : Operation) (c' : Cursor), c'.unread = c.unread →
    ∃ answer n, operation.run c = (answer, c.advance n) ∧
      operation.run c' = (answer, c'.advance n)

theorem skip_of_tlv {r : Except DecodeError (Tlv × Nat)} {stop : Cursor} (h : c.tlv = (r, stop)) :
    c.skip = (r.map Prod.snd, stop) := by
  rw [skip, Step.bind, h]
  cases r with
  | error err => rfl
  | ok p => rfl

theorem tlv_atomic (c : Cursor) :
    (∃ err, c.tlv = (.error err, c)) ∨
    ∃ t part rest, c.unread = part ++ rest ∧ t.SpelledBy part ∧
      c.tlv = (.ok (t, part.length), c.advance part.length) := by
  cases hr : Tlv.read c.unread with
  | error err => exact .inl ⟨err, tlv_of_error hr⟩
  | ok p =>
    obtain ⟨t, rest⟩ := p
    obtain ⟨id, size, hid, hsize, hu⟩ := Tlv.exists_spelled_of_read hr
    exact .inr ⟨t, _, rest, hu, ⟨id, size, hid, hsize, rfl⟩, tlv_of_ok hu hr⟩

/-- Where an element is read whole, it can be read unopened, and it ends at the same place. -/
theorem element_atomic (c : Cursor) :
    (∃ err, c.element = (.error err, c)) ∨
    ∃ e t part rest, c.unread = part ++ rest ∧ Spells part e ∧
      c.element = (.ok e, c.advance part.length) ∧
      c.tlv = (.ok (t, part.length), c.advance part.length) := by
  have he := c.element_eq
  cases hr : Element.read c.unread with
  | error err => exact .inl ⟨err, he.trans (front_of_error hr)⟩
  | ok p =>
    obtain ⟨e, rest⟩ := p
    obtain ⟨part, hpart, -, hspells⟩ := Element.read_eq_ok_iff.1 hr
    have hunopened : ∃ t, Tlv.read c.unread = .ok (t, rest) := by
      rw [Element.read, Element.readWithin_eq] at hr
      obtain ⟨t, ht, hrest⟩ := bind_eq_ok.1 hr
      obtain ⟨_, _, hp⟩ := map_eq_ok.1 hrest
      cases hp
      exact ⟨t.1, ht⟩
    obtain ⟨t, ht⟩ := hunopened
    exact .inr ⟨e, t, part, rest, hpart, hspells, he.trans (front_of_ok hpart hr),
      tlv_of_ok hpart ht⟩

def Within (buffer : Bytes) (c : Cursor) : Prop :=
  c.buffer = buffer ∧ c.position ≤ buffer.length

variable {buffer : Bytes}

theorem Step.Local.within {step : Step α} (h : step.Local) (hc : c.Within buffer) :
    (step c).2.Within buffer := by
  obtain ⟨rfl, hp⟩ := hc
  obtain ⟨r, n, hn, hs, -⟩ := h c c rfl
  rw [remaining] at hn
  rw [hs]
  exact ⟨rfl, show c.position + n ≤ c.buffer.length by omega⟩

theorem within_after (operations : List Operation) (hc : c.Within buffer) :
    (c.after operations).Within buffer := by
  induction operations generalizing c with
  | nil => exact hc
  | cons operation operations ih => exact ih (operation.run_local.within hc)

theorem Within.atomic (hc : c.Within buffer) : c.Atomic := by
  refine ⟨?_, ?_, ?_, ?_⟩
  · rcases tlv_atomic c with ⟨err, ht⟩ | ⟨t, part, rest, hu, hs, ht⟩
    · exact .inl ⟨err, ht, skip_of_tlv ht⟩
    · refine .inr ⟨t, part.length, ht, skip_of_tlv ht, hs.two_le_length, ?_, ?_⟩
      · rw [← length_unread, hu, List.length_append]
        omega
      · rwa [hu, List.take_left]
  · rcases element_atomic c with ⟨err, he⟩ | ⟨e, t, part, rest, hu, hs, he, ht⟩
    · exact .inl ⟨err, he⟩
    · refine .inr ⟨e, t, part.length, he, ht, skip_of_tlv ht, ?_⟩
      rwa [hu, List.take_left]
  · obtain ⟨es, stop, hpasses, hstop⟩ := exists_passes (Nat.le_refl c.remaining)
    refine ⟨es, stop, hpasses, ?_⟩
    rcases hstop with ⟨hend, hes⟩ | herr
    · have hall : c.all = (.ok es, stop) := hes
      have hwithin : stop.Within buffer := by
        have h := Step.Local.all.within hc
        rwa [hall] at h
      have hremaining : stop.remaining = 0 := by rw [← length_unread, hend, List.length_nil]
      rw [remaining, hwithin.1] at hremaining
      have hposition := hwithin.2
      exact .inl ⟨by rw [hc.1]; omega, hall⟩
    · exact .inr herr
  · intro operation c' hu
    obtain ⟨answer, n, -, hrun, hrun'⟩ := operation.run_local c c' hu
    exact ⟨answer, n, hrun, hrun'⟩

/-- After any operations a cursor is inside of its octets, and each operation goes over whole
elements or stays where it is. To read all elements ends at the end, or in front of the first that
cannot be read. What comes out depends only on the octets that have not been read. -/
theorem operations_atomic (buffer : Bytes) (operations : List Operation) :
    let c := (ofBytes buffer).after operations
    c.buffer = buffer ∧ c.position ≤ buffer.length ∧ c.position + c.remaining = buffer.length ∧
      c.Atomic := by
  intro c
  have hstart : (ofBytes buffer).Within buffer := ⟨rfl, Nat.zero_le _⟩
  have hc : c.Within buffer := within_after operations hstart
  have hposition := hc.2
  refine ⟨hc.1, hposition, ?_, hc.atomic⟩
  rw [remaining, hc.1]
  omega

/-- A sequence whose child goes past its end is not gone over, but its octets can be skipped. -/
example : ((ofBytes [5, 0, 0x30, 3, 4, 9, 0x61]).after [.all, .element]).position = 2 ∧
    ((ofBytes [5, 0, 0x30, 3, 4, 9, 0x61]).after [.all, .skip]).position = 7 := by decide

end LdapCodec.Ber.Cursor
