import LdapCodec.DecodeError
import LdapCodec.Text.Decimal
import LdapCodec.Text.Quoted

namespace LdapCodec

/-- A numeric object identifier, as the numbers of its arcs. -/
structure Oid where
  arcs : List Nat
  deriving DecidableEq, Repr

namespace Oid

def text (oid : Oid) : String :=
  String.ofList (['.'].intercalate (oid.arcs.map Decimal.digits))

def parts : List Char → List (List Char)
  | [] => [[]]
  | c :: cs =>
    if c = '.' then [] :: parts cs
    else
      match parts cs with
      | [] => [[c]]
      | p :: ps => (c :: p) :: ps

def arc (part : List Char) : Except DecodeError Nat :=
  let n := Decimal.value part
  if n < UInt64.size then .ok n
  else .error (.valueOutOfRange s!"OID component too large: {String.ofList part}")

/-- Two or more numbers joined by dots. The first is 0, 1 or 2, and below 0 and 1 the
second is at most 39. -/
def parse (s : String) : Except DecodeError Oid := do
  let ps := parts s.toList
  let invalid (reason : String) : Except DecodeError Oid :=
    .error (.valueOutOfRange s!"Invalid numeric OID: {Quoted.quote s}{reason}")
  if ps.length < 2 || !ps.all Decimal.isNumber then
    invalid ""
  else
    let arcs ← ps.mapM arc
    match arcs with
    | first :: second :: _ =>
      if first ≤ 1 && second > 39 then invalid " (second arc must be at most 39)"
      else if first ≤ 2 then .ok ⟨arcs⟩
      else invalid " (first arc must be 0, 1 or 2)"
    | _ => invalid ""

/-- The numbers that the text of an identifier names. A part that is too large for an arc
would be passed over. -/
def components (oid : Oid) : List Nat :=
  (parts oid.text.toList).filterMap fun part ↦ (arc part).toOption

def isValid (s : String) : Bool := (parse s).isOk

/-- Identifiers are ordered by their text, so that 1.10 stands before 1.9. -/
def sort (oids : List Oid) : List Oid :=
  (oids.mergeSort fun a b ↦ decide (a.text ≤ b.text)).eraseReps

end Oid

end LdapCodec
