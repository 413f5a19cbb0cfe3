import LdapCodec.Extension

namespace LdapCodec

open Ber Json

inductive PolicySelection where
  | default
  | policy (dn : String)
  | target (dn : String)
  deriving DecidableEq, Repr

/-- Asks for passwords, each tried a number of times against the policy. -/
structure GeneratePassword where
  selection : PolicySelection
  passwords : Int32
  attempts : Int32
  deriving DecidableEq, Repr

namespace GeneratePassword

def defaultPasswords : Int32 := 1

def defaultAttempts : Int32 := 5

def standard : GeneratePassword := ⟨.default, defaultPasswords, defaultAttempts⟩

def name : String := "Generate Password Extended Request"

/-- A word that is not below its least. `rule` is what a number breaks that is refused. -/
def checkLeast (least : Int32) (rule : String) (v : Int) : Except DecodeError Int32 :=
  match (Word.ofInt? v).filter (least ≤ ·) with
  | some w => .ok w
  | none => .error (.valueOutOfRange s!"{rule}, got {v}")

def checkPasswords (v : Int) : Except DecodeError Int32 :=
  checkLeast 1 "Number of passwords must be at least 1" v

def checkAttempts (v : Int) : Except DecodeError Int32 :=
  checkLeast 0 "Number of validation attempts must not be negative" v

def encodeSelection : PolicySelection → List Element
  | .default => []
  | .policy dn => [(Element.text dn).context 1]
  | .target dn => [(Element.text dn).context 2]

def encodeFields (x : GeneratePassword) : List Element :=
  encodeSelection x.selection ++
    (if x.passwords = defaultPasswords then []
     else [(Element.integer x.passwords.toInt).context 3]) ++
    (if x.attempts = defaultAttempts then []
     else [(Element.integer x.attempts.toInt).context 4])

def encodeValue (x : GeneratePassword) : Option Bytes :=
  let fields := encodeFields x
  if fields = [] then none else some (Element.sequence fields).encode

def readField (x : GeneratePassword) (e : Element) :
    Except DecodeError (Nat × GeneratePassword) := do
  if e.tag = .contextSpecific false 0 then
    within "Default policy selection" e.asNull
    .ok (0, { x with selection := .default })
  else if e.tag = .contextSpecific false 1 then
    let dn ← within "Password policy DN" e.asText
    .ok (0, { x with selection := .policy dn })
  else if e.tag = .contextSpecific false 2 then
    let dn ← within "Target entry DN" e.asText
    .ok (0, { x with selection := .target dn })
  else if e.tag = .contextSpecific false 3 then
    let passwords ← checkPasswords (← within "Number of passwords" e.asInteger)
    .ok (1, { x with passwords })
  else if e.tag = .contextSpecific false 4 then
    let attempts ← checkAttempts (← within "Number of validation attempts" e.asInteger)
    .ok (2, { x with attempts })
  else .error (unexpected e name)

def decode (fields : List Element) : Except DecodeError GeneratePassword :=
  orderedFields name readField 0 standard fields

def decodeValue (value : Option Bytes) : Except DecodeError GeneratePassword :=
  match value with
  | none => .ok standard
  | some bytes => do
    decode (← Payload.fields (some bytes) name 0 3)

def select (policyDn targetDn : Option String) : Except DecodeError PolicySelection :=
  match policyDn, targetDn with
  | none, none => .ok .default
  | some dn, none => .ok (.policy dn)
  | none, some dn => .ok (.target dn)
  | some _, some _ =>
    .error (.decoding s!"{name} cannot name both a policy DN and a target entry DN")

def structured : Structured GeneratePassword where
  fields :=
    ["password-policy-dn", "target-entry-dn", "number-of-passwords",
      "number-of-validation-attempts"]
  write x :=
    let ms : Members :=
      [("number-of-passwords", .ofInt x.passwords.toInt),
        ("number-of-validation-attempts", .ofInt x.attempts.toInt)]
    match x.selection with
    | .default => some (.object ms)
    | .policy dn => some (.object (ms.insert "password-policy-dn" (.string dn)))
    | .target dn => some (.object (ms.insert "target-entry-dn" (.string dn)))
  read _ ms := do
    let policyDn ← orInvalid name (ms.optional Value.asText? "password-policy-dn")
    let targetDn ← orInvalid name (ms.optional Value.asText? "target-entry-dn")
    let passwords ← orInvalid name (ms.optional Value.asInt64? "number-of-passwords")
    let attempts ← orInvalid name (ms.optional Value.asInt64? "number-of-validation-attempts")
    let selection ← select policyDn targetDn
    let passwords ← checkPasswords (passwords.getD defaultPasswords.toInt)
    let attempts ← checkAttempts (attempts.getD defaultAttempts.toInt)
    .ok ⟨selection, passwords, attempts⟩

def extension : Extension ExtendedRequest Unit GeneratePassword where
  oid := "1.3.6.1.4.1.30221.2.6.62"
  name := name
  keepsValue := true
  encodeValue := encodeValue
  decodeValue _ value := decodeValue value
  structured := some structured

def build (selection : PolicySelection) (passwords attempts : Int32) :
    Except Refusal (Typed Unit GeneratePassword) :=
  if passwords < 1 then .error .noPasswordRequested
  else if attempts < 0 then .error .negativeAttempts
  else .ok (.new () ⟨selection, passwords, attempts⟩)

end GeneratePassword

structure GeneratedPassword where
  password : String
  attempted : Bool
  errors : List String
  deriving DecidableEq, Repr

namespace GeneratedPassword

def what : String := "Generated password"

def fields : List String := ["password", "validation-attempted", "validation-errors"]

def encode (x : GeneratedPassword) : Element :=
  .sequence ([.text x.password, .boolean x.attempted] ++
    (if x.errors = [] then []
     else [(Element.sequence (x.errors.map Element.text)).context 0]))

def decode (e : Element) : Except DecodeError GeneratedPassword := do
  expectField e .sequence what
  let children ← e.asChildren
  checkCount children 2 3 what
  match children with
  | first :: second :: rest =>
    let password ← textField first "Generated password value"
    expectField second .boolean "Validation attempted flag"
    let attempted ← second.asBoolean
    match rest with
    | [] => .ok ⟨password, attempted, []⟩
    | third :: _ =>
      expectField third (.contextSpecific true 0) "Validation errors"
      let errors ← (← third.asChildren).mapM (textField · "Validation error")
      .ok ⟨password, attempted, errors⟩
  | _ => .error (unexpected e what)

def toValue (x : GeneratedPassword) : Value :=
  let ms : Members :=
    [("password", .string x.password), ("validation-attempted", .bool x.attempted)]
  if x.errors = [] then .object ms
  else .object (ms.insert "validation-errors" (.ofTexts x.errors))

def ofValue? (v : Value) : Option GeneratedPassword := do
  let ms ← v.asMembers?
  let password ← ms.required Value.asText? "password"
  let attempted ← ms.required Value.asBool? "validation-attempted"
  let errors ← ms.defaulted Value.asTexts? [] "validation-errors"
  some ⟨password, attempted, errors⟩

end GeneratedPassword

structure GeneratedPasswords where
  policyDn : String
  passwords : List GeneratedPassword
  deriving DecidableEq, Repr

namespace GeneratedPasswords

def name : String := "Generate Password Extended Result"

def check (policyDn : String) (passwords : List GeneratedPassword) :
    Except DecodeError GeneratedPasswords :=
  if passwords = [] then
    .error (.invalidElementCount s!"{name} must contain at least one generated password")
  else .ok ⟨policyDn, passwords⟩

def encode (x : GeneratedPasswords) : Element :=
  .sequence [.text x.policyDn, .sequence (x.passwords.map GeneratedPassword.encode)]

def decode (fields : List Element) : Except DecodeError GeneratedPasswords := do
  match fields with
  | first :: second :: _ =>
    let policyDn ← textField first "Password policy DN"
    expectField second .sequence "Generated passwords"
    let passwords ← (← second.asChildren).mapM GeneratedPassword.decode
    check policyDn passwords
  | _ => check "" []

def decodeValue : OperationResult → Option Bytes → Except DecodeError (Option GeneratedPasswords) :=
  resultValue name fun value ↦ do decode (← Payload.fields value name 2 2)

def checkItems (strict : Bool) (ms : Members) : Except DecodeError Unit :=
  match ms.get? "generated-passwords" with
  | some (.array items) =>
    items.forM fun item ↦
      (checkFields item GeneratedPassword.fields strict GeneratedPassword.what).map fun _ ↦ ()
  | _ => .ok ()

def structured : Structured (Option GeneratedPasswords) where
  fields := ["password-policy-dn", "generated-passwords"]
  write x := x.map fun x ↦ .object
    [("generated-passwords", .array (x.passwords.map GeneratedPassword.toValue)),
      ("password-policy-dn", .string x.policyDn)]
  read strict ms := do
    checkItems strict ms
    let policyDn ← orInvalid name (ms.required Value.asText? "password-policy-dn")
    let items ← orInvalid name (ms.required Value.asItems? "generated-passwords")
    let passwords ← orInvalid name (items.mapM GeneratedPassword.ofValue?)
    let x ← check policyDn passwords
    .ok (some x)

def extension : Extension ExtendedResult OperationResult (Option GeneratedPasswords) where
  oid := "1.3.6.1.4.1.30221.2.6.63"
  name := name
  keepsValue := true
  encodeValue x := x.map fun x ↦ (encode x).encode
  decodeValue := decodeValue
  structured := some structured

def build (policyDn : String) (passwords : List GeneratedPassword) :
    Except Refusal (Typed OperationResult (Option GeneratedPasswords)) :=
  if passwords = [] then .error .noPasswordGenerated
  else .ok (.new .success (some ⟨policyDn, passwords⟩))

def failure (result : OperationResult) :
    Except Refusal (Typed OperationResult (Option GeneratedPasswords)) :=
  failedResult "generated passwords" result

end GeneratedPasswords

end LdapCodec
