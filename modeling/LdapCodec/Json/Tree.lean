import LdapCodec.Text.Decimal
import LdapCodec.Text.Hex

namespace LdapCodec.Json

inductive Piece where
  | char (c : Char)
  | unit (u : Nat)
  deriving DecidableEq, Repr

/-- A number literal. `fraction` is empty where no point is written. -/
structure Literal where
  negative : Bool
  integer : List Char
  fraction : List Char
  exponent : Option Int
  deriving DecidableEq, Repr

/-- A JSON text as it is written: numbers and escapes are not interpreted, and members
stand in order with all their repetitions. -/
inductive Tree where
  | null
  | bool (b : Bool)
  | number (n : Literal)
  | string (s : List Piece)
  | array (items : List Tree)
  | object (members : List (List Piece × Tree))
  deriving Repr

namespace Tree

def isBlank (c : Char) : Bool := c = ' ' || c = '\t' || c = '\n' || c = '\r'

def skipBlanks (cs : List Char) : List Char := cs.dropWhile isBlank

def keyword (word : List Char) (t : Tree) (cs : List Char) : Option (Tree × List Char) :=
  if word.isPrefixOf cs then some (t, cs.drop word.length) else none

def unit? (a b c d : Char) : Option Nat := do
  let a ← Hex.digit? a
  let b ← Hex.digit? b
  let c ← Hex.digit? c
  let d ← Hex.digit? d
  some (((a * 16 + b) * 16 + c) * 16 + d)

def escape? (c : Char) : Option Char :=
  if c = '"' ∨ c = '\\' ∨ c = '/' then some c
  else if c = 'b' then some '\x08'
  else if c = 'f' then some '\x0c'
  else if c = 'n' then some '\n'
  else if c = 'r' then some '\r'
  else if c = 't' then some '\t'
  else none

def pieces : List Char → Option (List Piece × List Char)
  | [] => none
  | '"' :: rest => some ([], rest)
  | '\\' :: 'u' :: a :: b :: c :: d :: rest => do
    let u ← unit? a b c d
    let (ps, rest) ← pieces rest
    some (.unit u :: ps, rest)
  | '\\' :: e :: rest => do
    let c ← escape? e
    let (ps, rest) ← pieces rest
    some (.char c :: ps, rest)
  | c :: rest => do
    if c.toNat < 0x20 ∨ c = '\\' then none
    let (ps, rest) ← pieces rest
    some (.char c :: ps, rest)

def exponent : List Char → Option (Option Int × List Char)
  | c :: rest =>
    if c = 'e' ∨ c = 'E' then
      let (negative, rest) :=
        match rest with
        | '+' :: rest => (false, rest)
        | '-' :: rest => (true, rest)
        | _ => (false, rest)
      let (ds, rest) := rest.span Decimal.isDigit
      if ds = [] then none
      else
        let n : Int := Decimal.value ds
        some (some (if negative then -n else n), rest)
    else some (none, c :: rest)
  | [] => some (none, [])

def fraction : List Char → Option (List Char × List Char)
  | '.' :: rest =>
    let (ds, rest) := rest.span Decimal.isDigit
    if ds = [] then none else some (ds, rest)
  | rest => some ([], rest)

def literal (cs : List Char) : Option (Literal × List Char) := do
  let (negative, cs) :=
    match cs with
    | '-' :: rest => (true, rest)
    | _ => (false, cs)
  let (whole, cs) := cs.span Decimal.isDigit
  if !Decimal.isNumber whole then none
  let (part, cs) ← fraction cs
  let (power, cs) ← exponent cs
  some (⟨negative, whole, part, power⟩, cs)

mutual

/-- The value at the front of a text. Every step takes a character, so that the steps
bound the length of the text. -/
def value : Nat → List Char → Option (Tree × List Char)
  | 0, _ => none
  | steps + 1, cs =>
    match skipBlanks cs with
    | [] => none
    | c :: rest =>
      if c = 'n' then keyword ['u', 'l', 'l'] .null rest
      else if c = 't' then keyword ['r', 'u', 'e'] (.bool true) rest
      else if c = 'f' then keyword ['a', 'l', 's', 'e'] (.bool false) rest
      else if c = '"' then (pieces rest).map fun (s, rest) ↦ (.string s, rest)
      else if c = '[' then
        match skipBlanks rest with
        | ']' :: rest => some (.array [], rest)
        | rest => (items steps rest).map fun (xs, rest) ↦ (.array xs, rest)
      else if c = '\x7b' then
        match skipBlanks rest with
        | '\x7d' :: rest => some (.object [], rest)
        | rest => (members steps rest).map fun (ms, rest) ↦ (.object ms, rest)
      else (literal (c :: rest)).map fun (n, rest) ↦ (.number n, rest)

def items : Nat → List Char → Option (List Tree × List Char)
  | 0, _ => none
  | steps + 1, cs => do
    let (x, cs) ← value steps cs
    match skipBlanks cs with
    | ',' :: cs =>
      let (xs, cs) ← items steps cs
      some (x :: xs, cs)
    | ']' :: cs => some ([x], cs)
    | _ => none

def members : Nat → List Char → Option (List (List Piece × Tree) × List Char)
  | 0, _ => none
  | steps + 1, cs => do
    let '"' :: cs := skipBlanks cs | none
    let (k, cs) ← pieces cs
    let ':' :: cs := skipBlanks cs | none
    let (x, cs) ← value steps cs
    match skipBlanks cs with
    | ',' :: cs =>
      let (ms, cs) ← members steps cs
      some ((k, x) :: ms, cs)
    | '\x7d' :: cs => some ([(k, x)], cs)
    | _ => none

end

def read? (cs : List Char) : Option Tree := do
  let (t, rest) ← value (2 * cs.length + 2) cs
  if skipBlanks rest = [] then some t else none

mutual

def depth : Tree → Nat
  | array xs => 1 + depthItems xs
  | object ms => 1 + depthMembers ms
  | _ => 0

def depthItems : List Tree → Nat
  | [] => 0
  | x :: xs => max (depth x) (depthItems xs)

def depthMembers : List (List Piece × Tree) → Nat
  | [] => 0
  | (_, x) :: ms => max (depth x) (depthMembers ms)

end

end Tree

end LdapCodec.Json
