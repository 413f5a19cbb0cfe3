import LdapCodec.Bytes
import LdapCodec.DecodeError
import LdapCodec.Json.Value
import LdapCodec.Text.Base64
import LdapCodec.Word

namespace LdapCodec.Json

namespace Value

def asBool? : Value → Option Bool
  | bool b => some b
  | _ => none

def asText? : Value → Option String
  | string s => some s
  | _ => none

def asItems? : Value → Option (List Value)
  | array xs => some xs
  | _ => none

def asMembers? : Value → Option Members
  | object ms => some ms
  | _ => none

/-- An integer of 64 bits with a sign. Doubles are no integers, even if they are whole. -/
def asInt64? : Value → Option Int
  | number (.int v) => if -0x8000000000000000 ≤ v ∧ v < 0x8000000000000000 then some v else none
  | _ => none

def asInt32? : Value → Option Int32
  | number (.int v) => Word.ofInt? v
  | _ => none

def asTexts? (v : Value) : Option (List String) := v.asItems?.bind (·.mapM asText?)

def ofInt (v : Int) : Value := number (.int v)

def ofTexts (texts : List String) : Value := array (texts.map string)

def parse (text : String) : Except DecodeError Value :=
  match read? text with
  | some v => .ok v
  | none => .error (.decoding "Invalid JSON: not a JSON text")

end Value

namespace Members

def required {α : Type} (read : Value → Option α) (key : String) (ms : Members) : Option α :=
  (ms.get? key).bind read

/-- A member that may be missing or null. -/
def optional {α : Type} (read : Value → Option α) (key : String) (ms : Members) :
    Option (Option α) :=
  match ms.get? key with
  | none | some .null => some none
  | some v => (read v).map some

/-- A member that may be missing, but not null. -/
def defaulted {α : Type} (read : Value → Option α) (default : α) (key : String) (ms : Members) :
    Option α :=
  match ms.get? key with
  | none => some default
  | some v => read v

def insertText (key : String) (text : Option String) (ms : Members) : Members :=
  match text with
  | some s => ms.insert key (.string s)
  | none => ms

def unknown? (allowed : List String) (ms : Members) : Option String :=
  ms.keys.find? (!allowed.contains ·)

end Members

def checkFields (v : Value) (allowed : List String) (strict : Bool) (what : String) :
    Except DecodeError Members :=
  match v.asMembers? with
  | none => .error (.decoding s!"{what} value must be a JSON object")
  | some ms =>
    match ms.unknown? allowed with
    | some key =>
      if strict then
        .error (.unrecognizedField s!"Unrecognized field '{key}' in {what} value")
      else .ok ms
    | none => .ok ms

def decodeBase64 (text what : String) : Except DecodeError Bytes :=
  match Base64.decode? text with
  | some bytes => .ok bytes
  | none => .error (.decoding s!"Invalid base64 in {what}: not a padded base64 text")

end LdapCodec.Json
