namespace LdapCodec

/-- How an operation ended, as a number. Numbers without a name are codes too. -/
structure ResultCode where
  value : Int32
  deriving DecidableEq, Repr

namespace ResultCode

def success : ResultCode := ⟨0⟩

def isSuccess (code : ResultCode) : Bool := code == success

def names : List (Int × String) := [
  (0, "success"),
  (1, "operations error"),
  (2, "protocol error"),
  (3, "time limit exceeded"),
  (4, "size limit exceeded"),
  (5, "compare false"),
  (6, "compare true"),
  (7, "auth method not supported"),
  (8, "stronger auth required"),
  (10, "referral"),
  (11, "admin limit exceeded"),
  (12, "unavailable critical extension"),
  (13, "confidentiality required"),
  (14, "sasl bind in progress"),
  (16, "no such attribute"),
  (17, "undefined attribute type"),
  (18, "inappropriate matching"),
  (19, "constraint violation"),
  (20, "attribute or value exists"),
  (21, "invalid attribute syntax"),
  (32, "no such object"),
  (33, "alias problem"),
  (34, "invalid DN syntax"),
  (36, "alias dereferencing problem"),
  (48, "inappropriate authentication"),
  (49, "invalid credentials"),
  (50, "insufficient access rights"),
  (51, "busy"),
  (52, "unavailable"),
  (53, "unwilling to perform"),
  (54, "loop detect"),
  (64, "naming violation"),
  (65, "object class violation"),
  (66, "not allowed on nonleaf"),
  (67, "not allowed on RDN"),
  (68, "entry already exists"),
  (69, "object class mods prohibited"),
  (71, "affects multiple DSAs"),
  (80, "other"),
  (118, "canceled"),
  (119, "no such operation"),
  (120, "too late"),
  (121, "cannot cancel"),
  (122, "assertion failed"),
  (123, "authorization denied"),
  (16654, "no operation")]

def name? (code : ResultCode) : Option String := names.lookup code.value.toInt

def describe (code : ResultCode) : String :=
  match code.name? with
  | some name => s!"{code.value.toInt} ({name})"
  | none => s!"{code.value.toInt}"

end ResultCode

end LdapCodec
