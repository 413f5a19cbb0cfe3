import LdapCodec.Ber.Encoder
import LdapCodec.Proofs.Ber.Cursor
import LdapCodec.Proofs.Ber.Shortest

namespace LdapCodec.Ber

mutual

/-- How an element is built: from a value, from the elements inside it, or from another element by
a tag of its own. -/
inductive Build where
  | boolean (v : Bool)
  | integer (v : Int)
  | enumerated (v : Int)
  | octetString (content : Bytes)
  | null
  | sequence (inner : Script)
  | context (number : UInt32) (b : Build)
  | application (number : UInt32) (b : Build)

/-- Elements in the order in which an encoder gets them, each as a whole or by the call that
matches how it is built. -/
inductive Script where
  | done
  | whole (b : Build) (rest : Script)
  | call (b : Build) (rest : Script)

end

mutual

def Build.element : Build → Element
  | .boolean v => .boolean v
  | .integer v => .integer v
  | .enumerated v => .enumerated v
  | .octetString content => .octetString content
  | .null => .null
  | .sequence inner => .sequence inner.elements
  | .context number b => b.element.context number
  | .application number b => b.element.retag .application number

def Script.elements : Script → List Element
  | .done => []
  | .whole b rest => b.element :: rest.elements
  | .call b rest => b.element :: rest.elements

end

def Build.isConstructed : Build → Bool
  | .sequence _ => true
  | .context _ b => b.isConstructed
  | .application _ b => b.isConstructed
  | _ => false

mutual

def Build.write (w : Encoder) : Build → Encoder
  | .boolean v => w.boolean v
  | .integer v => w.integer v
  | .enumerated v => w.enumerated v
  | .octetString content => w.octetString content
  | .null => w.null
  | .sequence inner => w.sequence (inner.run .empty).buffer
  | .context number b => w.context number b.content b.isConstructed
  | .application number b => w.application number b.content b.isConstructed

def Build.content : Build → Bytes
  | .boolean v => [if v then 0xFF else 0x00]
  | .integer v => Integer.octets v
  | .enumerated v => Integer.octets v
  | .octetString content => content
  | .null => []
  | .sequence inner => (inner.run .empty).buffer
  | .context _ b => b.content
  | .application _ b => b.content

def Script.run (w : Encoder) : Script → Encoder
  | .done => w
  | .whole b rest => rest.run (w.element b.element)
  | .call b rest => rest.run (b.write w)

end

namespace Element

@[simp]
theorem tag_retag (cls : TagClass) (number : UInt32) (e : Element) :
    (e.retag cls number).tag = ⟨cls, e.tag.constructed, number⟩ := by
  cases e with
  | primitive c n content => rfl
  | constructed c n children => rfl

@[simp]
theorem content_retag (cls : TagClass) (number : UInt32) (e : Element) :
    (e.retag cls number).content = e.content := by
  cases e with
  | primitive c n content => rfl
  | constructed c n children => rfl

theorem readAll_encodeAll_iff {es : List Element} :
    readAll (encodeAll es) = .ok es ↔ ∀ e ∈ es, e.depth ≤ 64 ∧ e.content.length < 2 ^ 32 := by
  constructor
  · intro h
    obtain ⟨parts, -, hparts⟩ := exists_parts_of_readMany (fun _ _ _ ↦ spells_of_readWithin) h
    intro e he
    obtain ⟨part, -, hdepth, hspells⟩ := exists_of_mem_forall₂ hparts he
    exact ⟨hdepth, length_content_lt_of_spells hspells⟩
  · intro h
    have hread := readMany_encodeAll
      (fun e he rest ↦ readWithin_encode e (h e he).2 maxDepth rest) (Nat.le_refl _)
    have hdepth : depthAll es ≤ maxDepth := depthAll_le_iff.2 fun e he ↦ (h e he).1
    rw [if_pos hdepth] at hread
    exact hread

end Element

namespace Encoder

theorem buffer_tlv (w : Encoder) (e : Element) :
    (w.tlv e.tag e.content).buffer = w.buffer ++ e.encode := by
  rw [tlv, Element.encode_eq_tlv]

theorem buffer_elements_of {es : List Element}
    (h : ∀ e ∈ es, ∀ w : Encoder, (w.element e).buffer = w.buffer ++ e.encode) (w : Encoder) :
    (w.elements es).buffer = w.buffer ++ Element.encodeAll es := by
  induction es generalizing w with
  | nil => rw [elements, Element.encodeAll, List.append_nil]
  | cons e es ih =>
    obtain ⟨he, hes⟩ := List.forall_mem_cons.1 h
    rw [elements, ih hes, he, Element.encodeAll, List.append_assoc]

/-- To write an element with encoders inside one another is to write it as one. -/
theorem buffer_element (w : Encoder) (e : Element) :
    (w.element e).buffer = w.buffer ++ e.encode := by
  induction e using Element.induction generalizing w with
  | primitive cls number content =>
    rw [element]
    exact w.buffer_tlv (.primitive cls number content)
  | constructed cls number children ih =>
    have hinner : (empty.elements children).buffer = Element.encodeAll children :=
      buffer_elements_of ih empty
    rw [element, hinner]
    exact w.buffer_tlv (.constructed cls number children)

end Encoder

theorem Build.constructed_tag : (b : Build) → b.element.tag.constructed = b.isConstructed
  | .boolean _ | .integer _ | .enumerated _ | .octetString _ | .null | .sequence _ => rfl
  | .context number b => by
    rw [element, Element.context, Element.tag_retag, isConstructed, b.constructed_tag]
  | .application number b => by
    rw [element, Element.tag_retag, isConstructed, b.constructed_tag]

/-- Each call writes the tag of its element. -/
theorem Build.write_eq_tlv (w : Encoder) (b : Build) : b.write w = w.tlv b.element.tag b.content := by
  cases b with
  | boolean v => rfl
  | integer v => rfl
  | enumerated v => rfl
  | octetString content => rfl
  | null => rfl
  | sequence inner => rfl
  | context number b =>
    rw [write, content, element, Element.context, Element.tag_retag, b.constructed_tag]
    rfl
  | application number b =>
    rw [write, content, element, Element.tag_retag, b.constructed_tag]
    rfl

mutual

theorem Build.content_eq : (b : Build) → b.content = b.element.content
  | .boolean _ | .integer _ | .enumerated _ | .octetString _ | .null => rfl
  | .sequence inner => by
    rw [Build.content, Build.element, Element.content_sequence, inner.buffer_run]
    exact List.nil_append _
  | .context number b => by
    rw [Build.content, Build.element, Element.context, Element.content_retag, b.content_eq]
  | .application number b => by
    rw [Build.content, Build.element, Element.content_retag, b.content_eq]

/-- After a script the encoder has what it had before it, and behind that all elements. -/
theorem Script.buffer_run (w : Encoder) :
    (s : Script) → (s.run w).buffer = w.buffer ++ Element.encodeAll s.elements
  | .done => by rw [Script.run, Script.elements, Element.encodeAll, List.append_nil]
  | .whole b rest => by
    rw [Script.run, rest.buffer_run, Encoder.buffer_element, Script.elements, Element.encodeAll,
      List.append_assoc]
  | .call b rest => by
    rw [Script.run, rest.buffer_run, b.write_eq_tlv, b.content_eq, Encoder.buffer_tlv,
      Script.elements, Element.encodeAll, List.append_assoc]

end

theorem Build.buffer_write (w : Encoder) (b : Build) :
    (b.write w).buffer = w.buffer ++ b.element.encode := by
  rw [write_eq_tlv, content_eq, Encoder.buffer_tlv]

theorem Cursor.all_ofBytes_iff {bytes : Bytes} {es : List Element} :
    (ofBytes bytes).all = (.ok es, ⟨bytes, bytes.length⟩) ↔ Element.readAll bytes = .ok es := by
  have hfst : (ofBytes bytes).all.1 = Element.readAll bytes :=
    elements_fst element_eq (fun _ _ _ ↦ Element.exists_append_of_readWithin) bytes.length
      (ofBytes bytes)
  have hstart : (ofBytes bytes).Within bytes := ⟨rfl, Nat.zero_le _⟩
  rw [← hfst]
  constructor
  · intro h
    rw [h]
  · intro h
    obtain ⟨xs, stop, -, ⟨hstop, hall⟩ | ⟨err, hall, -⟩⟩ := hstart.atomic.all
    · have hbuffer : (ofBytes bytes).all.2.buffer = bytes := (Step.Local.all.within hstart).1
      have hstop : stop.position = bytes.length := hstop
      obtain ⟨buffer, position⟩ := stop
      rw [hall] at h hbuffer ⊢
      cases h
      rw [show buffer = bytes from hbuffer, show position = bytes.length from hstop]
    · rw [hall] at h
      cases h

/-- Whether an element is given to an encoder as a whole or by the calls for its parts, the same
octets come behind those that are there. All elements of a script are read from its octets again,
up to the end, exactly if their constructed elements go no deeper than 64 and their contents have
less than 2^32 octets. -/
theorem Encoder.scripts_read_back :
    (∀ (w : Encoder) (b : Build),
      (w.element b.element).buffer = w.buffer ++ b.element.encode ∧
        (b.write w).buffer = w.buffer ++ b.element.encode) ∧
    (∀ (w : Encoder) (s : Script),
      (s.run w).buffer = w.buffer ++ Element.encodeAll s.elements) ∧
    ∀ s : Script,
      let buffer := (s.run .empty).buffer
      (Cursor.ofBytes buffer).all = (.ok s.elements, ⟨buffer, buffer.length⟩) ↔
        ∀ e ∈ s.elements, e.depth ≤ 64 ∧ e.content.length < 2 ^ 32 := by
  refine ⟨fun w b ↦ ⟨w.buffer_element b.element, b.buffer_write w⟩, fun w s ↦ s.buffer_run w,
    fun s ↦ ?_⟩
  have hbuffer : (s.run .empty).buffer = Element.encodeAll s.elements := s.buffer_run .empty
  simp only [hbuffer]
  exact Cursor.all_ofBytes_iff.trans Element.readAll_encodeAll_iff

/-- A tag for a sequence of a number, by its call, and a null, as a whole. -/
example :
    let s : Script := .call (.context 0 (.sequence (.call (.integer 5) (.whole .null .done)))) .done
    s.elements = [(Element.sequence [.integer 5, .null]).context 0] ∧
      (s.run .empty).buffer = [0xA0, 5, 2, 1, 5, 5, 0] := by decide +kernel

end LdapCodec.Ber
