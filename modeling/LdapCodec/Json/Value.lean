import LdapCodec.Json.Number

namespace LdapCodec.Json

inductive Value where
  | null
  | bool (b : Bool)
  | number (n : Number)
  | string (s : String)
  | array (items : List Value)
  | object (members : List (String × Value))
  deriving Repr, BEq

abbrev Members := List (String × Value)

namespace Members

/-- Members in the order of their keys, each key once. The order cannot be part of `Value`, which
lists of itself would have to be ordered for; `insert` keeps it. -/
def Ordered (ms : Members) : Prop := ms.Pairwise fun m m' ↦ m.1 < m'.1

instance : DecidablePred Ordered := fun ms ↦
  inferInstanceAs (Decidable (List.Pairwise (fun m m' ↦ m.1 < m'.1) ms))

def insert (key : String) (v : Value) : Members → Members
  | [] => [(key, v)]
  | (k, w) :: ms =>
    if key = k then (key, v) :: ms
    else if key < k then (key, v) :: (k, w) :: ms
    else (k, w) :: insert key v ms

def get? (key : String) : Members → Option Value
  | [] => none
  | (k, v) :: ms => if k = key then some v else get? key ms

def keys (ms : Members) : List String := ms.map Prod.fst

theorem get?_insert_self (key : String) (v : Value) (ms : Members) :
    (insert key v ms).get? key = some v := by
  fun_induction insert key v ms with
  | case1 => simp [get?]
  | case2 => simp [get?]
  | case3 => simp [get?]
  | case4 k w ms hk _ ih => simp [get?, Ne.symm hk, ih]

theorem get?_insert_of_ne {key k : String} (h : k ≠ key) (v : Value) (ms : Members) :
    (insert key v ms).get? k = ms.get? k := by
  fun_induction insert key v ms with
  | case1 => simp [get?, Ne.symm h]
  | case2 => simp [get?, Ne.symm h]
  | case3 => simp [get?, Ne.symm h]
  | case4 k' w ms hk _ ih => simp [get?, ih]

theorem mem_insert {key : String} {v : Value} {ms : Members} {m : String × Value}
    (h : m ∈ ms.insert key v) : m = (key, v) ∨ m ∈ ms := by
  fun_induction insert key v ms with
  | case1 => simpa using h
  | case2 =>
    rcases List.mem_cons.1 h with rfl | h
    · exact .inl rfl
    · exact .inr (List.mem_cons_of_mem _ h)
  | case3 =>
    rcases List.mem_cons.1 h with rfl | h
    · exact .inl rfl
    · exact .inr h
  | case4 k w ms _ _ ih =>
    rcases List.mem_cons.1 h with rfl | h
    · exact .inr List.mem_cons_self
    · exact (ih h).imp_right (List.mem_cons_of_mem _)

theorem Ordered.insert {ms : Members} (h : ms.Ordered) (key : String) (v : Value) :
    (ms.insert key v).Ordered := by
  fun_induction Members.insert key v ms with
  | case1 => exact List.pairwise_singleton _ _
  | case2 =>
    obtain ⟨hk, hms⟩ := List.pairwise_cons.1 h
    exact .cons hk hms
  | case3 k w ms _ hlt =>
    obtain ⟨hk, _⟩ := List.pairwise_cons.1 h
    refine .cons ?_ h
    exact List.forall_mem_cons.2 ⟨hlt, fun m hm ↦ String.lt_trans hlt (hk m hm)⟩
  | case4 k w ms hne hlt ih =>
    obtain ⟨hk, hms⟩ := List.pairwise_cons.1 h
    refine .cons (fun m hm ↦ ?_) (ih hms)
    rcases mem_insert hm with rfl | hm
    · exact Std.lt_of_le_of_ne (String.not_lt.1 hlt) (Ne.symm hne)
    · exact hk m hm

end Members

namespace Value

def isHighSurrogate (u : Nat) : Bool := 0xD800 ≤ u && u < 0xDC00

def isLowSurrogate (u : Nat) : Bool := 0xDC00 ≤ u && u < 0xE000

/-- The characters of a string literal. Surrogates count in pairs only. -/
def chars? : List Piece → Option (List Char)
  | [] => some []
  | .char c :: ps => (chars? ps).map (c :: ·)
  | .unit u :: .unit v :: ps =>
    if isHighSurrogate u then
      if isLowSurrogate v then
        (chars? ps).map (Char.ofNat (0x10000 + (u - 0xD800) * 0x400 + (v - 0xDC00)) :: ·)
      else none
    else if isLowSurrogate u then none
    else (chars? (.unit v :: ps)).map (Char.ofNat u :: ·)
  | .unit u :: ps =>
    if isHighSurrogate u || isLowSurrogate u then none
    else (chars? ps).map (Char.ofNat u :: ·)

def text? (ps : List Piece) : Option String := (chars? ps).map String.ofList

mutual

/-- What a text means. Of members with one key the last counts. -/
def ofTree? : Tree → Option Value
  | .null => some .null
  | .bool b => some (.bool b)
  | .number l => (Number.ofLiteral? l).map .number
  | .string ps => (text? ps).map .string
  | .array xs => (ofItems? xs).map .array
  | .object ms => (ofMembers? [] ms).map .object

def ofItems? : List Tree → Option (List Value)
  | [] => some []
  | x :: xs => do
    let v ← ofTree? x
    let vs ← ofItems? xs
    some (v :: vs)

def ofMembers? (acc : Members) : List (List Piece × Tree) → Option Members
  | [] => some acc
  | (k, x) :: ms => do
    let k ← text? k
    let v ← ofTree? x
    ofMembers? (acc.insert k v) ms

end

def maxDepth : Nat := 127

def read? (text : String) : Option Value := do
  let t ← Tree.read? text.toList
  if t.depth ≤ maxDepth then ofTree? t else none

def escape (c : Char) : List Char :=
  if c = '"' then ['\\', '"']
  else if c = '\\' then ['\\', '\\']
  else if c = '\x08' then ['\\', 'b']
  else if c = '\x0c' then ['\\', 'f']
  else if c = '\n' then ['\\', 'n']
  else if c = '\r' then ['\\', 'r']
  else if c = '\t' then ['\\', 't']
  else if c.toNat < 0x20 then
    ['\\', 'u', '0', '0', Hex.lowerDigit (c.toNat / 16), Hex.lowerDigit (c.toNat % 16)]
  else [c]

def quote (s : String) : List Char := '"' :: s.toList.flatMap escape ++ ['"']

mutual

def write : Value → List Char
  | null => ['n', 'u', 'l', 'l']
  | bool true => ['t', 'r', 'u', 'e']
  | bool false => ['f', 'a', 'l', 's', 'e']
  | number n => n.text
  | string s => quote s
  | array xs => '[' :: writeItems xs ++ [']']
  | object ms => '\x7b' :: writeMembers ms ++ ['\x7d']

def writeItems : List Value → List Char
  | [] => []
  | [x] => write x
  | x :: y :: xs => write x ++ ',' :: writeItems (y :: xs)

def writeMembers : List (String × Value) → List Char
  | [] => []
  | [(k, x)] => quote k ++ ':' :: write x
  | (k, x) :: m :: ms => quote k ++ ':' :: write x ++ ',' :: writeMembers (m :: ms)

end

def render (v : Value) : String := String.ofList v.write

end Value

end LdapCodec.Json
