import Mathlib.Data.List.TakeDrop
import Mathlib.Data.String.Basic
import LdapCodec.Json.Value
import LdapCodec.Proofs.Text.Decimal

namespace LdapCodec

namespace Json

def Ends (rest : List Char) : Prop := ∀ c ∈ rest.head?, c = ',' ∨ c = ']' ∨ c = '\x7d'

theorem Ends.nil : Ends [] := by simp [Ends]

theorem Ends.cons {c : Char} {rest : List Char} (h : c = ',' ∨ c = ']' ∨ c = '\x7d') :
    Ends (c :: rest) := by
  simpa [Ends] using h

theorem span_digits {ds rest : List Char} (hd : ∀ c ∈ ds, Decimal.isDigit c = true)
    (hr : Ends rest) : (ds ++ rest).span Decimal.isDigit = (ds, rest) := by
  have ht : rest.takeWhile Decimal.isDigit = [] ∧ rest.dropWhile Decimal.isDigit = rest := by
    cases rest with
    | nil => exact ⟨rfl, rfl⟩
    | cons c rest =>
      have hc : Decimal.isDigit c = false := by
        rcases hr c rfl with rfl | rfl | rfl <;> decide
      simp [hc]
  rw [List.span_eq_takeWhile_dropWhile, List.takeWhile_append_of_pos hd,
    List.dropWhile_append_of_pos hd, ht.1, ht.2, List.append_nil]

namespace Tree

theorem fraction_of_ends {rest : List Char} (hr : Ends rest) : fraction rest = some ([], rest) := by
  cases rest with
  | nil => rfl
  | cons c rest => rcases hr c rfl with rfl | rfl | rfl <;> rfl

theorem exponent_of_ends {rest : List Char} (hr : Ends rest) :
    exponent rest = some (none, rest) := by
  cases rest with
  | nil => rfl
  | cons c rest => rcases hr c rfl with rfl | rfl | rfl <;> rfl

/-- The literal of an integer has neither a point nor an exponent. -/
theorem literal_intText (v : Int) {rest : List Char} (hr : Ends rest) :
    literal (Number.intText v ++ rest) =
      some (⟨decide (v < 0), Decimal.digits v.natAbs, [], none⟩, rest) := by
  have hall := Decimal.isDigit_of_mem_digits (n := v.natAbs)
  have hspan := span_digits hall hr
  have hnum := Decimal.isNumber_digits v.natAbs
  have hf := fraction_of_ends hr
  have he := exponent_of_ends hr
  by_cases hv : v < 0
  · rw [Number.intText, if_pos hv, List.cons_append, literal]
    simp [hspan, hnum, hf, he, hv, -List.span_eq_takeWhile_dropWhile]
  · obtain ⟨c, cs, hc⟩ := List.exists_cons_of_ne_nil (Decimal.digits_ne_nil v.natAbs)
    have hn : ∀ tail, Decimal.digits v.natAbs ++ rest ≠ '-' :: tail := by
      intro tail heq
      rw [hc, List.cons_append, List.cons.injEq] at heq
      rw [hc, heq.1] at hall
      exact absurd (hall '-' (by simp)) (by decide)
    rw [Number.intText, if_neg hv, literal]
    · simp [hspan, hnum, hf, he, hv, -List.span_eq_takeWhile_dropWhile]
    · exact hn

theorem pieces_char {c : Char} (hq : c ≠ '"') (hb : c ≠ '\\') (hc : ¬c.toNat < 0x20)
    (rest : List Char) :
    pieces (c :: rest) = (pieces rest).map fun p ↦ (.char c :: p.1, p.2) := by
  rw [pieces.eq_def]
  split
  · simp_all
  · simp_all
  · simp_all
  · simp_all
  · rename_i heq
    cases heq
    rw [if_neg (not_or.2 ⟨hc, hb⟩), Option.map_eq_bind]
    rfl

theorem pieces_escaped {e c : Char} (he : escape? e = some c) (hu : e ≠ 'u') (rest : List Char) :
    pieces ('\\' :: e :: rest) = (pieces rest).map fun p ↦ (.char c :: p.1, p.2) := by
  rw [pieces.eq_def]
  split
  · simp_all
  · simp_all
  · simp_all
  · rename_i heq
    cases heq
    rw [he, Option.map_eq_bind]
    rfl
  · rename_i hn heq
    rw [List.cons.injEq] at heq
    exact absurd heq.2.symm (hn e rest heq.1.symm)

theorem pieces_unit {n : Nat} (hn : n < 0x20) (rest : List Char) :
    pieces ('\\' :: 'u' :: '0' :: '0' :: Hex.lowerDigit (n / 16) :: Hex.lowerDigit (n % 16) ::
      rest) = (pieces rest).map fun p ↦ (.unit n :: p.1, p.2) := by
  have h0 : Hex.digit? '0' = some 0 := by decide
  have hu : unit? '0' '0' (Hex.lowerDigit (n / 16)) (Hex.lowerDigit (n % 16)) = some n := by
    simp only [unit?, h0, Hex.digit?_lowerDigit _ (show n / 16 < 16 by omega),
      Hex.digit?_lowerDigit _ (show n % 16 < 16 by omega), Option.bind_eq_bind, Option.bind_some]
    rw [Option.some_inj]
    omega
  rw [pieces, hu, Option.map_eq_bind]
  rfl

end Tree

namespace Value

def piece (c : Char) : Piece :=
  if c.toNat < 0x20 ∧ c ∉ ['\x08', '\x0c', '\n', '\r', '\t'] then .unit c.toNat else .char c

theorem pieces_escape (c : Char) (rest : List Char) :
    Tree.pieces (escape c ++ rest) = (Tree.pieces rest).map fun p ↦ (piece c :: p.1, p.2) := by
  by_cases hs : c ∈ ['"', '\\', '\x08', '\x0c', '\n', '\r', '\t']
  · have hp : piece c = .char c := by
      simp only [List.mem_cons, List.not_mem_nil, or_false] at hs
      rcases hs with rfl | rfl | rfl | rfl | rfl | rfl | rfl <;> rfl
    rw [hp]
    simp only [List.mem_cons, List.not_mem_nil, or_false] at hs
    rcases hs with rfl | rfl | rfl | rfl | rfl | rfl | rfl <;>
      exact Tree.pieces_escaped (by rfl) (by decide) rest
  · simp only [List.mem_cons, List.not_mem_nil, or_false, not_or] at hs
    obtain ⟨h1, h2, h3, h4, h5, h6, h7⟩ := hs
    by_cases hc : c.toNat < 0x20
    · have hp : piece c = .unit c.toNat := by simp [piece, hc, h3, h4, h5, h6, h7]
      simp only [escape, h1, h2, h3, h4, h5, h6, h7, hc, if_true, if_false, hp]
      exact Tree.pieces_unit hc rest
    · have hp : piece c = .char c := by simp [piece, hc]
      simp only [escape, h1, h2, h3, h4, h5, h6, h7, hc, if_false, hp]
      exact Tree.pieces_char h1 h2 hc rest

theorem pieces_flatMap_escape (cs rest : List Char) :
    Tree.pieces (cs.flatMap escape ++ '"' :: rest) = some (cs.map piece, rest) := by
  induction cs with
  | nil => rfl
  | cons c cs ih =>
    rw [List.flatMap_cons, List.append_assoc, pieces_escape, ih]
    rfl

theorem chars?_unit {u : Nat} (hu : u < 0xD800) (ps : List Piece) :
    chars? (.unit u :: ps) = (chars? ps).map (Char.ofNat u :: ·) := by
  have hh : isHighSurrogate u = false := by
    simp only [isHighSurrogate, Bool.and_eq_false_iff, decide_eq_false_iff_not]
    omega
  have hl : isLowSurrogate u = false := by
    simp only [isLowSurrogate, Bool.and_eq_false_iff, decide_eq_false_iff_not]
    omega
  cases ps with
  | nil => simp [chars?, hh, hl]
  | cons p ps =>
    cases p with
    | char c => simp [chars?, hh, hl]
    | unit v => simp [chars?, hh, hl]

theorem chars?_piece (cs : List Char) : chars? (cs.map piece) = some cs := by
  induction cs with
  | nil => rfl
  | cons c cs ih =>
    rw [List.map_cons, piece]
    split
    · rename_i h
      rw [chars?_unit (by omega), ih, Char.ofNat_toNat]
      rfl
    · rw [chars?, ih]
      rfl

theorem text?_piece (s : String) : text? (s.toList.map piece) = some s := by
  rw [text?, chars?_piece, Option.map_some, String.ofList_toList]

mutual

def depth : Value → Nat
  | array xs => 1 + depthItems xs
  | object ms => 1 + depthMembers ms
  | _ => 0

def depthItems : List Value → Nat
  | [] => 0
  | x :: xs => max (depth x) (depthItems xs)

def depthMembers : Members → Nat
  | [] => 0
  | (_, x) :: ms => max (depth x) (depthMembers ms)

end

theorem depthItems_le_iff {xs : List Value} {k : Nat} :
    depthItems xs ≤ k ↔ ∀ x ∈ xs, x.depth ≤ k := by
  induction xs with
  | nil => simp [depthItems]
  | cons x xs ih => rw [depthItems, Nat.max_le, ih, List.forall_mem_cons]

theorem depthMembers_le_iff {ms : Members} {k : Nat} :
    depthMembers ms ≤ k ↔ ∀ m ∈ ms, m.2.depth ≤ k := by
  induction ms with
  | nil => simp [depthMembers]
  | cons m ms ih => rw [depthMembers, Nat.max_le, ih, List.forall_mem_cons]

theorem depth_lt_depth_object {ms : Members} {m : String × Value} (h : m ∈ ms) :
    m.2.depth < (object ms).depth := by
  have hm := depthMembers_le_iff.1 (Nat.le_refl _) m h
  rw [depth]
  omega

/-- Values without doubles, as a program holds them: integers have at most 64 bits. -/
inductive Exact : Value → Prop
  | null : Exact .null
  | bool (b : Bool) : Exact (.bool b)
  | int {v : Int} (hl : -0x8000000000000000 ≤ v) (hu : v < 0x10000000000000000) :
      Exact (.number (.int v))
  | string (s : String) : Exact (.string s)
  | array {items : List Value} (hi : ∀ x ∈ items, Exact x) : Exact (.array items)
  | object {members : Members} (hk : members.Ordered) (hm : ∀ m ∈ members, Exact m.2) :
    Exact (.object members)

structure ReadsAs (v : Value) (t : Tree) : Prop where
  write_eq_cons : ∃ c cs, v.write = c :: cs ∧ Tree.isBlank c = false ∧ c ≠ ']'
  value : ∀ (steps : Nat) (rest : List Char), v.write.length ≤ steps → Ends rest →
    Tree.value steps (v.write ++ rest) = some (t, rest)
  meaning : ofTree? t = some v
  depth_eq : t.depth = v.depth

theorem skipBlanks_cons {c : Char} (h : Tree.isBlank c = false) (rest : List Char) :
    Tree.skipBlanks (c :: rest) = c :: rest := by
  simp [Tree.skipBlanks, h]

theorem exists_succ_of_lt {k steps : Nat} (h : k < steps) : ∃ n, steps = n + 1 ∧ k ≤ n :=
  ⟨steps - 1, by omega, by omega⟩

theorem ReadsAs.null : ReadsAs .null .null where
  write_eq_cons := ⟨_, _, rfl, by decide, by decide⟩
  value steps rest hs hr := by
    obtain ⟨n, rfl, _⟩ := exists_succ_of_lt hs
    rfl
  meaning := rfl
  depth_eq := rfl

theorem ReadsAs.bool (b : Bool) : ReadsAs (.bool b) (.bool b) where
  write_eq_cons := by cases b <;> exact ⟨_, _, rfl, by decide, by decide⟩
  value steps rest hs hr := by
    cases b with
    | false =>
      obtain ⟨n, rfl, _⟩ := exists_succ_of_lt hs
      rfl
    | true =>
      obtain ⟨n, rfl, _⟩ := exists_succ_of_lt hs
      rfl
  meaning := rfl
  depth_eq := rfl

theorem quote_append (s : String) (rest : List Char) :
    quote s ++ rest = '"' :: (s.toList.flatMap escape ++ '"' :: rest) := by
  simp [quote]

theorem ReadsAs.string (s : String) : ReadsAs (.string s) (.string (s.toList.map piece)) where
  write_eq_cons := ⟨_, _, rfl, by decide, by decide⟩
  value steps rest hs hr := by
    obtain ⟨n, rfl, _⟩ := exists_succ_of_lt hs
    rw [write, quote_append, Tree.value, skipBlanks_cons (by decide)]
    simp [pieces_flatMap_escape]
  meaning := by rw [ofTree?, text?_piece, Option.map_some]
  depth_eq := rfl

def openers : List Char := ['n', 't', 'f', '"', '[', '\x7b', ']', ' ', '\t', '\n', '\r']

theorem intText_eq_cons (v : Int) :
    ∃ c cs, Number.intText v = c :: cs ∧ c ∉ openers := by
  by_cases hv : v < 0
  · exact ⟨'-', _, by rw [Number.intText, if_pos hv], by decide⟩
  · obtain ⟨c, cs, hc⟩ := List.exists_cons_of_ne_nil (Decimal.digits_ne_nil v.natAbs)
    have hd : Decimal.isDigit c = true :=
      Decimal.isDigit_of_mem_digits c (by rw [hc]; exact List.mem_cons_self)
    have hn : ∀ d ∈ openers, Decimal.isDigit d = false := by
      simp only [openers, List.forall_mem_cons]
      exact ⟨rfl, rfl, rfl, rfl, rfl, rfl, rfl, rfl, rfl, rfl, rfl, List.forall_mem_nil _⟩
    refine ⟨c, cs, by rw [Number.intText, if_neg hv, hc], fun hm ↦ ?_⟩
    rw [hn c hm] at hd
    exact Bool.false_ne_true hd

theorem ofLiteral?_int {v : Int} (hl : -0x8000000000000000 ≤ v) (hu : v < 0x10000000000000000) :
    Number.ofLiteral? ⟨decide (v < 0), Decimal.digits v.natAbs, [], none⟩ = some (.int v) := by
  have hn := Decimal.value_digits v.natAbs
  by_cases hv : v < 0
  · have hp : 0 < v.natAbs ∧ v.natAbs ≤ 0x8000000000000000 := by omega
    have he : -(v.natAbs : Int) = v := by omega
    simp only [Number.ofLiteral?, hn, hv, hp, he, decide_true, not_true_eq_false, false_and,
      and_self, if_true, if_false]
  · have hp : v.natAbs < UInt64.size := by
      simp only [UInt64.size]
      omega
    have he : (v.natAbs : Int) = v := by omega
    simp only [Number.ofLiteral?, hn, hv, hp, he, decide_false, Bool.false_eq_true,
      not_false_eq_true, and_self, if_true]

theorem ReadsAs.int {v : Int} (hl : -0x8000000000000000 ≤ v) (hu : v < 0x10000000000000000) :
    ReadsAs (.number (.int v))
      (.number ⟨decide (v < 0), Decimal.digits v.natAbs, [], none⟩) where
  write_eq_cons := by
    obtain ⟨c, cs, hc, ho⟩ := intText_eq_cons v
    simp only [openers, List.mem_cons, List.not_mem_nil, or_false, not_or] at ho
    exact ⟨c, cs, hc, by simp [Tree.isBlank, ho], by simp [ho]⟩
  value steps rest hs hr := by
    obtain ⟨c, cs, hc, ho⟩ := intText_eq_cons v
    have hlit := Tree.literal_intText v hr
    rw [write, Number.text] at hs ⊢
    rw [hc] at hs hlit ⊢
    obtain ⟨n, rfl, _⟩ := exists_succ_of_lt hs
    simp only [openers, List.mem_cons, List.not_mem_nil, or_false, not_or] at ho
    rw [List.cons_append] at hlit ⊢
    rw [Tree.value, skipBlanks_cons (by simp [Tree.isBlank, ho])]
    simp [ho, hlit]
  meaning := by rw [ofTree?, ofLiteral?_int hl hu, Option.map_some]
  depth_eq := rfl

/-- Items are read one after another. A step for each character is enough. -/
theorem items_writeItems {xs : List Value} {ts : List Tree} (h : List.Forall₂ ReadsAs xs ts)
    (hx : xs ≠ []) {steps : Nat} (hs : (writeItems xs).length < steps) (rest : List Char) :
    Tree.items steps (writeItems xs ++ ']' :: rest) = some (ts, rest) := by
  induction h generalizing steps with
  | nil => exact absurd rfl hx
  | @cons x t xs ts hxt h ih =>
    obtain ⟨n, rfl, hn⟩ := exists_succ_of_lt hs
    cases h with
    | nil =>
      rw [writeItems] at hn ⊢
      rw [Tree.items, hxt.value n _ hn (.cons (by simp))]
      simp [skipBlanks_cons, Tree.isBlank]
    | @cons y u xs ts hyu h =>
      rw [writeItems, List.length_append, List.length_cons] at hn
      have hi := ih (by simp) (show (writeItems (y :: xs)).length < n by omega)
      rw [writeItems, List.append_assoc, List.cons_append, Tree.items,
        hxt.value n _ (by omega) (.cons (by simp))]
      simp [skipBlanks_cons, Tree.isBlank, hi]

theorem ofItems?_of_readsAs {xs : List Value} {ts : List Tree} (h : List.Forall₂ ReadsAs xs ts) :
    ofItems? ts = some xs := by
  induction h with
  | nil => rfl
  | cons hx _ ih =>
    rw [ofItems?, hx.meaning, ih]
    rfl

theorem depthItems_of_readsAs {xs : List Value} {ts : List Tree}
    (h : List.Forall₂ ReadsAs xs ts) : Tree.depthItems ts = depthItems xs := by
  induction h with
  | nil => rfl
  | cons hx _ ih => rw [Tree.depthItems, depthItems, hx.depth_eq, ih]

theorem ReadsAs.array {xs : List Value} {ts : List Tree} (h : List.Forall₂ ReadsAs xs ts) :
    ReadsAs (.array xs) (.array ts) where
  write_eq_cons := ⟨_, _, rfl, by decide, by decide⟩
  value steps rest hs hr := by
    obtain ⟨n, rfl, hn⟩ := exists_succ_of_lt hs
    have hw : (Value.array xs).write ++ rest = '[' :: (writeItems xs ++ ']' :: rest) := by
      simp [write]
    rw [hw, Tree.value, skipBlanks_cons (by decide)]
    cases h with
    | nil => simp [writeItems, skipBlanks_cons, Tree.isBlank]
    | @cons x t xs ts hx h =>
      have hlen : (writeItems (x :: xs)).length < n := by simpa [Nat.succ_le_iff] using hn
      have hi := items_writeItems (.cons hx h) (by simp) hlen rest
      obtain ⟨c, cs, hc, hb, hne⟩ := hx.write_eq_cons
      obtain ⟨tail, ht⟩ : ∃ tail, writeItems (x :: xs) ++ ']' :: rest = c :: tail := by
        cases xs with
        | nil => exact ⟨_, by rw [writeItems, hc, List.cons_append]⟩
        | cons y ys => exact ⟨_, by rw [writeItems, hc, List.cons_append, List.cons_append]⟩
      rw [ht] at hi ⊢
      simp [skipBlanks_cons hb, hne, hi]
  meaning := by rw [ofTree?, ofItems?_of_readsAs h, Option.map_some]
  depth_eq := by rw [Tree.depth, depth, depthItems_of_readsAs h]

structure MemberReadsAs (m : String × Value) (t : List Piece × Tree) : Prop where
  key : t.1 = m.1.toList.map piece
  value : ReadsAs m.2 t.2

theorem members_writeMembers {ms : Members} {ts : List (List Piece × Tree)}
    (h : List.Forall₂ MemberReadsAs ms ts) (hm : ms ≠ []) {steps : Nat}
    (hs : (writeMembers ms).length < steps) (rest : List Char) :
    Tree.members steps (writeMembers ms ++ '\x7d' :: rest) = some (ts, rest) := by
  induction h generalizing steps with
  | nil => exact absurd rfl hm
  | @cons m t ms ts hmt h ih =>
    obtain ⟨n, rfl, hn⟩ := exists_succ_of_lt hs
    obtain ⟨k, x⟩ := m
    obtain ⟨ps, u⟩ := t
    obtain ⟨rfl, hx⟩ := hmt
    have hcolon (tail : List Char) : Tree.skipBlanks (':' :: tail) = ':' :: tail :=
      skipBlanks_cons (by decide) tail
    cases h with
    | nil =>
      have hw : writeMembers [(k, x)] ++ '\x7d' :: rest =
          quote k ++ ':' :: (x.write ++ '\x7d' :: rest) := by
        simp [writeMembers]
      rw [writeMembers, List.length_append, List.length_cons] at hn
      have hv := hx.value n ('\x7d' :: rest) (show x.write.length ≤ n by omega) (.cons (by simp))
      rw [hw, quote_append, Tree.members, skipBlanks_cons (by decide)]
      simp [pieces_flatMap_escape, hcolon, hv, skipBlanks_cons, Tree.isBlank]
    | @cons m' t' ms ts hmt' h =>
      have hw : writeMembers ((k, x) :: m' :: ms) ++ '\x7d' :: rest =
          quote k ++ ':' :: (x.write ++ ',' :: (writeMembers (m' :: ms) ++ '\x7d' :: rest)) := by
        simp [writeMembers]
      rw [writeMembers, List.length_append, List.length_append, List.length_cons,
        List.length_cons] at hn
      have hi := ih (by simp) (show (writeMembers (m' :: ms)).length < n by omega)
      have hv := hx.value n (',' :: (writeMembers (m' :: ms) ++ '\x7d' :: rest))
        (show x.write.length ≤ n by omega) (.cons (by simp))
      rw [hw, quote_append, Tree.members, skipBlanks_cons (by decide)]
      simp [pieces_flatMap_escape, hcolon, hv, skipBlanks_cons, Tree.isBlank, hi]

theorem insert_of_lt {key : String} (v : Value) {ms : Members} (h : ∀ m ∈ ms, m.1 < key) :
    ms.insert key v = ms ++ [(key, v)] := by
  induction ms with
  | nil => rfl
  | cons m ms ih =>
    obtain ⟨hm, hms⟩ := List.forall_mem_cons.1 h
    rw [Members.insert, if_neg (ne_of_gt hm), if_neg (not_lt_of_gt hm), ih hms, List.cons_append]

/-- Members that come in the order of their keys are kept as they come. -/
theorem ofMembers?_of_readsAs {ms acc : Members} {ts : List (List Piece × Tree)}
    (h : List.Forall₂ MemberReadsAs ms ts) (hk : ms.Ordered)
    (ha : ∀ m ∈ ms, ∀ a ∈ acc, a.1 < m.1) : ofMembers? acc ts = some (acc ++ ms) := by
  induction h generalizing acc with
  | nil => rw [ofMembers?, List.append_nil]
  | @cons m t ms ts hmt h ih =>
    obtain ⟨k, x⟩ := m
    obtain ⟨ps, u⟩ := t
    obtain ⟨rfl, hx⟩ := hmt
    obtain ⟨hkm, hkms⟩ := List.pairwise_cons.1 hk
    obtain ⟨ham, hams⟩ := List.forall_mem_cons.1 ha
    have hacc : ∀ m ∈ ms, ∀ a ∈ acc ++ [(k, x)], a.1 < m.1 := by
      intro m hm a ha'
      rcases List.mem_append.1 ha' with ha' | ha'
      · exact hams m hm a ha'
      · rw [List.mem_singleton.1 ha']
        exact hkm m hm
    rw [ofMembers?, text?_piece, hx.meaning]
    simp only [Option.bind_eq_bind, Option.bind_some]
    rw [insert_of_lt x ham, ih hkms hacc, List.append_assoc, List.singleton_append]

theorem depthMembers_of_readsAs {ms : Members} {ts : List (List Piece × Tree)}
    (h : List.Forall₂ MemberReadsAs ms ts) : Tree.depthMembers ts = depthMembers ms := by
  induction h with
  | nil => rfl
  | cons hm _ ih => rw [Tree.depthMembers, depthMembers, hm.value.depth_eq, ih]

theorem ReadsAs.object {ms : Members} {ts : List (List Piece × Tree)}
    (h : List.Forall₂ MemberReadsAs ms ts) (hk : ms.Ordered) :
    ReadsAs (.object ms) (.object ts) where
  write_eq_cons := ⟨_, _, rfl, by decide, by decide⟩
  value steps rest hs hr := by
    obtain ⟨n, rfl, hn⟩ := exists_succ_of_lt hs
    have hw : (Value.object ms).write ++ rest = '\x7b' :: (writeMembers ms ++ '\x7d' :: rest) := by
      simp [write]
    rw [hw, Tree.value, skipBlanks_cons (by decide)]
    cases h with
    | nil => simp [writeMembers, skipBlanks_cons, Tree.isBlank]
    | @cons m t ms ts hm h =>
      have hlen : (writeMembers (m :: ms)).length < n := by simpa [Nat.succ_le_iff] using hn
      have hi := members_writeMembers (.cons hm h) (by simp) hlen rest
      obtain ⟨tail, ht⟩ : ∃ tail, writeMembers (m :: ms) ++ '\x7d' :: rest = '"' :: tail := by
        cases ms with
        | nil => exact ⟨_, rfl⟩
        | cons m' ms => exact ⟨_, rfl⟩
      rw [ht] at hi ⊢
      simp [skipBlanks_cons, Tree.isBlank, hi]
  meaning := by
    rw [ofTree?, ofMembers?_of_readsAs h hk (by simp), Option.map_some, List.nil_append]
  depth_eq := by rw [Tree.depth, depth, depthMembers_of_readsAs h]

theorem exists_forall₂ {α β : Type} {R : α → β → Prop} {xs : List α} (h : ∀ x ∈ xs, ∃ y, R x y) :
    ∃ ys, List.Forall₂ R xs ys := by
  induction xs with
  | nil => exact ⟨[], .nil⟩
  | cons x xs ih =>
    obtain ⟨⟨y, hy⟩, hxs⟩ := List.forall_mem_cons.1 h
    obtain ⟨ys, hys⟩ := ih hxs
    exact ⟨y :: ys, .cons hy hys⟩

theorem Exact.exists_readsAs {v : Value} (h : v.Exact) : ∃ t, ReadsAs v t := by
  induction h with
  | null => exact ⟨_, .null⟩
  | bool b => exact ⟨_, .bool b⟩
  | int hl hu => exact ⟨_, .int hl hu⟩
  | string s => exact ⟨_, .string s⟩
  | array _ ih =>
    obtain ⟨ts, hts⟩ := exists_forall₂ ih
    exact ⟨_, .array hts⟩
  | @object ms hk _ ih =>
    have hm : ∀ m ∈ ms, ∃ t, MemberReadsAs m t := by
      intro m hm
      obtain ⟨t, ht⟩ := ih m hm
      exact ⟨(_, t), rfl, ht⟩
    obtain ⟨ts, hts⟩ := exists_forall₂ hm
    exact ⟨_, .object hts hk⟩

/-- Values without doubles are read from their text as they are, up to 127 levels. -/
theorem read?_render_eq {v : Value} (h : v.Exact) :
    read? v.render = if v.depth ≤ maxDepth then some v else none := by
  obtain ⟨t, ht⟩ := h.exists_readsAs
  have hv := ht.value (2 * v.write.length + 2) [] (by omega) .nil
  rw [List.append_nil] at hv
  have hr : Tree.read? v.write = some t := by
    rw [Tree.read?, hv]
    rfl
  rw [read?, render, String.toList_ofList, hr]
  simp only [Option.bind_eq_bind, Option.bind_some]
  rw [ht.depth_eq, ht.meaning]

end Value

end Json

end LdapCodec
