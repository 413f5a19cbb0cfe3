import LdapCodec.Json.Value

namespace LdapCodec

open Json

/-- What to do with input that is known in part only. `strict` refuses unknown members of
documents; the other switches say which embedded items fail the whole list: those that
cannot be read at all, and critical and other ones that do not fit their meaning. -/
structure DecodePolicy where
  strict : Bool
  throwUnparsable : Bool
  throwInvalidCritical : Bool
  throwInvalidNonCritical : Bool
  deriving DecidableEq, Repr

namespace DecodePolicy

def strictest : DecodePolicy := ⟨true, true, true, true⟩

def lenient : DecodePolicy := ⟨false, true, true, false⟩

def permissive : DecodePolicy := ⟨false, false, false, false⟩

def withStrict (p : DecodePolicy) (b : Bool) : DecodePolicy := { p with strict := b }

def withThrowUnparsable (p : DecodePolicy) (b : Bool) : DecodePolicy :=
  { p with throwUnparsable := b }

def withThrowInvalidCritical (p : DecodePolicy) (b : Bool) : DecodePolicy :=
  { p with throwInvalidCritical := b }

def withThrowInvalidNonCritical (p : DecodePolicy) (b : Bool) : DecodePolicy :=
  { p with throwInvalidNonCritical := b }

def throwInvalid (p : DecodePolicy) (critical : Bool) : Bool :=
  if critical then p.throwInvalidCritical else p.throwInvalidNonCritical

def strictKey : String := "strict"
def unparsableKey : String := "throw-on-unparsable-object"
def criticalKey : String := "throw-on-invalid-critical-element"
def nonCriticalKey : String := "throw-on-invalid-non-critical-element"

def keys : List String := [strictKey, unparsableKey, criticalKey, nonCriticalKey]

def toJson (p : DecodePolicy) : Value :=
  .object ((((Members.insert strictKey (.bool p.strict) []).insert unparsableKey
    (.bool p.throwUnparsable)).insert criticalKey
    (.bool p.throwInvalidCritical)).insert nonCriticalKey (.bool p.throwInvalidNonCritical))

def ofSwitches : List Tree → Option DecodePolicy
  | [] => some lenient
  | [.bool a] => some (lenient.withStrict a)
  | [.bool a, .bool b] => some ((lenient.withStrict a).withThrowUnparsable b)
  | [.bool a, .bool b, .bool c] => some ⟨a, b, c, lenient.throwInvalidNonCritical⟩
  | [.bool a, .bool b, .bool c, .bool d] => some ⟨a, b, c, d⟩
  | _ => none

/-- Takes members into a policy. `seen` holds the keys already met: a switch is set once.
Other members are not looked into. -/
def ofMembers (seen : List String) (p : DecodePolicy) :
    List (List Piece × Tree) → Option DecodePolicy
  | [] => some p
  | (k, x) :: ms => do
    let key ← Value.text? k
    if !keys.contains key then ofMembers seen p ms
    else if seen.contains key then none
    else
      let .bool b := x | none
      let p :=
        if key = strictKey then p.withStrict b
        else if key = unparsableKey then p.withThrowUnparsable b
        else if key = criticalKey then p.withThrowInvalidCritical b
        else p.withThrowInvalidNonCritical b
      ofMembers (key :: seen) p ms

/-- A policy is written as an object, or as an array of switches. -/
def read? (text : String) : Option DecodePolicy :=
  match Tree.read? text.toList with
  | some (.object ms) => ofMembers [] lenient ms
  | some (.array xs) => ofSwitches xs
  | _ => none

end DecodePolicy

end LdapCodec
