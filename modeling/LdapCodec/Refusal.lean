namespace LdapCodec

inductive Refusal where
  | emptyOid (kind : String)
  | noBaseDn
  | negativeWarning
  | noPasswordRequested
  | negativeAttempts
  | noPasswordGenerated
  | successWithout (what : String)
  | registered (oid : String)
  deriving DecidableEq, Repr

def Refusal.message : Refusal → String
  | .emptyOid kind => s!"{kind} OID must not be empty"
  | .noBaseDn => "at least one base DN is required"
  | .negativeWarning => "password policy warning value must not be negative"
  | .noPasswordRequested => "number of passwords must be at least 1"
  | .negativeAttempts => "number of validation attempts must not be negative"
  | .noPasswordGenerated => "at least one generated password is required"
  | .successWithout what => s!"a successful result must carry {what}"
  | .registered oid => s!"OID {oid} is already registered"

end LdapCodec
