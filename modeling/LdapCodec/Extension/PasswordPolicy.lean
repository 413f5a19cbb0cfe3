import LdapCodec.Extension

namespace LdapCodec

open Ber Json

namespace PasswordPolicy

inductive Warning where
  | timeBeforeExpiration (seconds : Int32)
  | graceLoginsRemaining (count : Int32)
  deriving DecidableEq, Repr

inductive Problem where
  | passwordExpired
  | accountLocked
  | changeAfterReset
  | passwordModNotAllowed
  | mustSupplyOldPassword
  | insufficientPasswordQuality
  | passwordTooShort
  | passwordTooYoung
  | passwordInHistory
  deriving DecidableEq, Repr

namespace Problem

def all : List Problem :=
  [passwordExpired, accountLocked, changeAfterReset, passwordModNotAllowed,
    mustSupplyOldPassword, insufficientPasswordQuality, passwordTooShort, passwordTooYoung,
    passwordInHistory]

def code : Problem → Nat
  | passwordExpired => 0
  | accountLocked => 1
  | changeAfterReset => 2
  | passwordModNotAllowed => 3
  | mustSupplyOldPassword => 4
  | insufficientPasswordQuality => 5
  | passwordTooShort => 6
  | passwordTooYoung => 7
  | passwordInHistory => 8

def label : Problem → String
  | passwordExpired => "PasswordExpired"
  | accountLocked => "AccountLocked"
  | changeAfterReset => "ChangeAfterReset"
  | passwordModNotAllowed => "PasswordModNotAllowed"
  | mustSupplyOldPassword => "MustSupplyOldPassword"
  | insufficientPasswordQuality => "InsufficientPasswordQuality"
  | passwordTooShort => "PasswordTooShort"
  | passwordTooYoung => "PasswordTooYoung"
  | passwordInHistory => "PasswordInHistory"

def key : Problem → String
  | passwordExpired => "password-expired"
  | accountLocked => "account-locked"
  | changeAfterReset => "change-after-reset"
  | passwordModNotAllowed => "password-mod-not-allowed"
  | mustSupplyOldPassword => "must-supply-old-password"
  | insufficientPasswordQuality => "insufficient-password-quality"
  | passwordTooShort => "password-too-short"
  | passwordTooYoung => "password-too-young"
  | passwordInHistory => "password-in-history"

def describe (p : Problem) : String := s!"{p.label} ({p.code})"

def ofCode (v : Int) : Except DecodeError Problem :=
  match all.find? fun p ↦ (p.code : Int) == v with
  | some p => .ok p
  | none => .error (.valueOutOfRange s!"Unknown password policy error code {v}")

end Problem

namespace Warning

def amount : Warning → Int32
  | timeBeforeExpiration v => v
  | graceLoginsRemaining v => v

def key : Warning → String
  | timeBeforeExpiration _ => "time-before-expiration"
  | graceLoginsRemaining _ => "grace-logins-remaining"

def kinds : List (String × (Int32 → Warning)) :=
  [("time-before-expiration", timeBeforeExpiration),
    ("grace-logins-remaining", graceLoginsRemaining)]

def number : Warning → UInt32
  | timeBeforeExpiration _ => 0
  | graceLoginsRemaining _ => 1

def encode (w : Warning) : Element :=
  (Element.sequence [(Element.integer w.amount.toInt).context w.number]).context 0

def decode (e : Element) : Except DecodeError Warning := do
  let choices ← e.asChildren
  checkCount choices 1 1 "Password policy warning"
  match choices with
  | choice :: _ =>
    if choice.tag = .contextSpecific false 0 then
      .ok (timeBeforeExpiration (← nonNegative choice "Password policy warning value"))
    else if choice.tag = .contextSpecific false 1 then
      .ok (graceLoginsRemaining (← nonNegative choice "Password policy warning value"))
    else .error (unexpected choice "password policy warning")
  | [] => .error (unexpected e "password policy warning")

end Warning

end PasswordPolicy

open PasswordPolicy in
/-- What the password policy has to say about a bind or a change. -/
structure PasswordPolicy where
  warning : Option Warning
  problem : Option Problem
  deriving DecidableEq, Repr

namespace PasswordPolicy

def warningTag : Tag := .contextSpecific true 0

def problemTag : Tag := .contextSpecific false 1

def name : String := "Password Policy Response Control"

def encode (x : PasswordPolicy) : Element :=
  .sequence ((x.warning.map Warning.encode).toList ++
    (x.problem.map fun p ↦ (Element.enumerated p.code).context 1).toList)

def decode (fields : List Element) : Except DecodeError PasswordPolicy := do
  let (warning, problem) ←
    optionalFields name warningTag Warning.decode problemTag readProblem fields
  .ok ⟨warning, problem⟩
where
  readProblem (e : Element) : Except DecodeError Problem := do
    Problem.ofCode (← within "Password policy error" e.asInteger)

/-- A name standing for a value: as a text, or as the only key of an object that maps it
to null. -/
def asNamed? {α : Type} (names : List (String × α)) : Value → Option α
  | .string s => names.lookup s
  | .object [(s, .null)] => names.lookup s
  | _ => none

def structured : Structured PasswordPolicy where
  fields := ["warning-type", "warning-value", "error-type"]
  write x :=
    let ms : Members := []
    let ms := ms.insertText "warning-type" (x.warning.map Warning.key)
    let ms :=
      match x.warning with
      | some w => ms.insert "warning-value" (.ofInt w.amount.toInt)
      | none => ms
    some (.object (ms.insertText "error-type" (x.problem.map Problem.key)))
  read _ ms := do
    let kind ← orInvalid name (ms.optional (asNamed? Warning.kinds) "warning-type")
    let amount ← orInvalid name (ms.optional Value.asInt64? "warning-value")
    let problem ←
      orInvalid name (ms.optional (asNamed? (Problem.all.map fun p ↦ (p.key, p))) "error-type")
    match kind, amount with
    | some kind, some amount =>
      match (Word.ofInt? amount).filter (0 ≤ ·) with
      | some w => .ok ⟨some (kind w), problem⟩
      | none =>
        .error (.valueOutOfRange s!"Password policy warning value {amount} out of range")
    | none, none => .ok ⟨none, problem⟩
    | _, _ =>
      .error (.decoding "Password policy warning-type and warning-value must appear together")

def extension : Extension Control Bool PasswordPolicy where
  oid := "1.3.6.1.4.1.42.2.27.8.5.1"
  name := name
  keepsValue := true
  encodeValue x := some (encode x).encode
  decodeValue _ value := do
    decode (← Payload.fields value name 0 2)
  structured := some structured

def build (critical : Bool) (warning : Option Warning) (problem : Option Problem) :
    Except Refusal (Typed Bool PasswordPolicy) :=
  if warning.any fun w ↦ w.amount < 0 then .error .negativeWarning
  else .ok (.new critical ⟨warning, problem⟩)

def defaultCriticality : Bool := false

end PasswordPolicy

end LdapCodec
