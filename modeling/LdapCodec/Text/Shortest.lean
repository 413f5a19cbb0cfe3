namespace LdapCodec.Shortest

/-- A magnitude `numerator / denominator`, and the half-way points to its neighbours in the
same unit. Points on the border belong to the magnitude only if `closed`. -/
structure Interval where
  low : Nat
  mid : Nat
  high : Nat
  unit : Nat
  closed : Bool

/-- The reals that round to a positive finite double with the given bits. -/
def Interval.ofBits (bits : Nat) : Interval :=
  let fraction := bits % 0x10000000000000
  let biased := bits / 0x10000000000000 % 2048
  let m := if biased = 0 then fraction else 0x10000000000000 + fraction
  let shift := max biased 1
  let low := if fraction = 0 ∧ biased > 1 then 4 * m - 1 else 4 * m - 2
  let scale := if shift ≥ 1077 then Nat.pow 2 (shift - 1077) else 1
  let unit := if shift ≥ 1077 then 1 else Nat.pow 2 (1077 - shift)
  ⟨low * scale, 4 * m * scale, (4 * m + 2) * scale, unit, m % 2 = 0⟩

def magnitude (i : Interval) : Int :=
  if i.mid ≥ i.unit then ((Nat.toDigits 10 (i.mid / i.unit)).length : Int)
  else -(zeros i 400 0 : Int)
where
  /-- Zeros between the point and the first digit that is not zero. -/
  zeros (i : Interval) : Nat → Nat → Nat
    | 0, n => n
    | steps + 1, n => if i.mid * Nat.pow 10 (n + 1) ≥ i.unit then n else zeros i steps (n + 1)

/-- The multiple of `10 ^ e` nearest to the magnitude among those that round to it. -/
def onGrid? (i : Interval) (e : Int) : Option Nat :=
  let up := Nat.pow 10 (-e).toNat
  let step := i.unit * Nat.pow 10 e.toNat
  let inside (n : Nat) : Bool :=
    if i.closed then i.low * up ≤ n * step && n * step ≤ i.high * up
    else i.low * up < n * step && n * step < i.high * up
  let n := i.mid * up / step
  let below := i.mid * up - n * step
  let above := (n + 1) * step - i.mid * up
  match inside n && n != 0, inside (n + 1) with
  | true, true =>
    if below < above then some n
    else if above < below then some (n + 1)
    else some (if n % 2 = 0 then n else n + 1)
  | true, false => some n
  | false, true => some (n + 1)
  | false, false => none

/-- The fewest decimal digits that read back, as a number and an exponent of ten. -/
def decimal (bits : Nat) : Nat × Int :=
  let i := Interval.ofBits bits
  go i (magnitude i) 17 1
where
  go (i : Interval) (top : Int) : Nat → Nat → Nat × Int
    | 0, n => (0, top - n)
    | steps + 1, n =>
      match onGrid? i (top - n) with
      | some d => if d = 10 then (1, top - n + 1) else (d, top - n)
      | none => go i top steps (n + 1)

end LdapCodec.Shortest
