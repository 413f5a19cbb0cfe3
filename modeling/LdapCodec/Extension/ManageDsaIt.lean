import LdapCodec.Extension

namespace LdapCodec

/-- Treats referrals as the entries that hold them. -/
structure ManageDsaIt where
  deriving DecidableEq, Repr

namespace ManageDsaIt

def extension : Extension Control Bool ManageDsaIt where
  oid := "2.16.840.1.113730.3.4.2"
  name := "ManageDsaIT Request Control"
  keepsValue := false
  encodeValue _ := none
  decodeValue _ value := (Payload.forbid value "ManageDsaIT Request Control").map fun _ ↦ {}
  structured := none

def build (critical : Bool) : Typed Bool ManageDsaIt := .new critical {}

def defaultCriticality : Bool := false

end ManageDsaIt

end LdapCodec
