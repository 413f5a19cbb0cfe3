import LdapCodec.Ber.JsonText
import LdapCodec.Ber.Stream
import LdapCodec.Known
import LdapCodec.Proofs.Blindness
import LdapCodec.Proofs.Canonical
import LdapCodec.Proofs.Delimiting
import LdapCodec.Proofs.FieldOrder
import LdapCodec.Proofs.Interchange
import LdapCodec.Proofs.Layout
import LdapCodec.Proofs.Rebuilding
import LdapCodec.Proofs.Reencoding
import LdapCodec.Proofs.Safety
import LdapCodec.Proofs.Transaction
import LdapCodec.Proofs.TypedDocument
import LdapCodec.Proofs.ValueForms
import LdapCodec.Proofs.Wire
import LdapCodec.Proofs.WireDocument
import LdapCodec.Proofs.Wrapping
import LdapCodec.Proofs.Ber.Encoder
import LdapCodec.Proofs.Ber.Framing
import LdapCodec.Proofs.Ber.Overflow
import LdapCodec.Proofs.Ber.TwosComplement
import LdapCodec.Proofs.Json.Reading
