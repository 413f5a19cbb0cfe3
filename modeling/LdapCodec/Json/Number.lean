import LdapCodec.Json.Tree
import LdapCodec.Text.Shortest

namespace LdapCodec.Json

/-- A number of a document: an integer of at most 64 bits, signed or unsigned, or else
a double. -/
inductive Number where
  | int (v : Int)
  | float (x : Float)
  deriving Repr

namespace Number

/-- Doubles are compared as numbers, so the two zeros are equal. -/
def beq : Number → Number → Bool
  | int v, int w => v == w
  | float x, float y => x == y
  | _, _ => false

instance : BEq Number := ⟨beq⟩

def absorb (n : Nat) : List Char → Nat × List Char
  | [] => (n, [])
  | c :: cs =>
    let next := n * 10 + (c.toNat - 48)
    if next < UInt64.size then absorb next cs else (n, c :: cs)

def power (e : Nat) : Float := Float.ofScientific 1 false e

def shrink (x : Float) (e : Nat) : Float :=
  if e ≤ 308 then x / power e
  else if x == 0 then x
  else shrink (x / power 308) (e - 308)
termination_by e

def scale? (significand : Nat) (e : Int) : Option Float :=
  let x := (UInt64.ofNat significand).toFloat
  if e < 0 then some (shrink x e.natAbs)
  else if e ≤ 308 then
    let y := x * power e.natAbs
    if y.isInf then none else some y
  else if significand = 0 then some x
  else none

/-- Digits of the integer part that do not fit only raise the exponent, digits of the
fraction that do not fit are dropped. -/
def float? (l : Literal) : Option Float :=
  let (n, raised) := absorb 0 l.integer
  let (n, dropped) := absorb n l.fraction
  let e : Int := raised.length - (l.fraction.length - dropped.length : Nat) + l.exponent.getD 0
  (scale? n e).map fun x ↦ if l.negative then -x else x

def ofLiteral? (l : Literal) : Option Number :=
  if l.fraction = [] ∧ l.exponent = none then
    let n := Decimal.value l.integer
    if ¬ l.negative ∧ n < UInt64.size then some (int n)
    else if l.negative ∧ 0 < n ∧ n ≤ 0x8000000000000000 then some (int (-n))
    else (float? l).map float
  else (float? l).map float

/-- The fewest digits that read back: with a point from 1e-5 up to 1e16, with an exponent
elsewhere. -/
def floatText (x : Float) : List Char :=
  let bits := x.toBits.toNat
  let sign := if bits ≥ 0x8000000000000000 then ['-'] else []
  if bits % 0x8000000000000000 = 0 then sign ++ ['0', '.', '0']
  else
    let (d, e) := Shortest.decimal (bits % 0x8000000000000000)
    let ds := Decimal.digits d
    let top : Int := ds.length + e
    let zeros (n : Int) : List Char := List.replicate n.toNat '0'
    if 0 ≤ e ∧ top ≤ 16 then sign ++ ds ++ zeros e ++ ['.', '0']
    else if 0 < top ∧ top ≤ 16 then sign ++ ds.take top.toNat ++ '.' :: ds.drop top.toNat
    else if -5 < top ∧ top ≤ 0 then sign ++ ['0', '.'] ++ zeros (-top) ++ ds
    else
      let mantissa := if ds.length = 1 then ds else ds.take 1 ++ '.' :: ds.drop 1
      let p := top - 1
      sign ++ mantissa ++ ['e', if p < 0 then '-' else '+'] ++ Decimal.digits p.natAbs

def intText (v : Int) : List Char :=
  if v < 0 then '-' :: Decimal.digits v.natAbs else Decimal.digits v.natAbs

def text : Number → List Char
  | int v => intText v
  | float x => floatText x

end Number

end LdapCodec.Json
