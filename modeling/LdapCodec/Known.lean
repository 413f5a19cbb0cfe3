import LdapCodec.Extension.BackupDescriptor
import LdapCodec.Extension.ExcludeBranch
import LdapCodec.Extension.GeneratePassword
import LdapCodec.Extension.JsonFormatted
import LdapCodec.Extension.ManageDsaIt
import LdapCodec.Extension.MissingChangelog
import LdapCodec.Extension.PasswordPolicy
import LdapCodec.Extension.Transaction
import LdapCodec.Extension.TransactionSpecification

namespace LdapCodec

inductive KnownControl where
  | excludeBranch (x : Typed Bool ExcludeBranch)
  | manageDsaIt (x : Typed Bool ManageDsaIt)
  | passwordPolicy (x : Typed Bool PasswordPolicy)
  | transactionSpecification (x : Typed Bool TransactionSpecification)
  | jsonRequest (x : Typed Bool JsonFormatted)
  | jsonResponse (x : Typed Bool JsonFormatted)
  | generic (c : Control)
  deriving BEq, Repr

namespace KnownControl

def toEnvelope : KnownControl → Control
  | excludeBranch x => ExcludeBranch.extension.toEnvelope x
  | manageDsaIt x => ManageDsaIt.extension.toEnvelope x
  | passwordPolicy x => PasswordPolicy.extension.toEnvelope x
  | transactionSpecification x => TransactionSpecification.extension.toEnvelope x
  | jsonRequest x => JsonFormatted.request.toEnvelope x
  | jsonResponse x => JsonFormatted.response.toEnvelope x
  | generic c => c

def registry : Registry Control KnownControl where
  generic := generic
  entries :=
    [.ofExtension ExcludeBranch.extension excludeBranch,
      .ofExtension ManageDsaIt.extension manageDsaIt,
      .ofExtension PasswordPolicy.extension passwordPolicy,
      .ofExtension TransactionSpecification.extension transactionSpecification,
      .ofExtension JsonFormatted.request jsonRequest,
      .ofExtension JsonFormatted.response jsonResponse]
  distinct := by decide

end KnownControl

inductive KnownRequest where
  | generatePassword (x : Typed Unit GeneratePassword)
  | backupQuery (x : Typed Unit BackupQuery)
  | startTransaction (x : Typed Unit StartTransaction)
  | endTransaction (x : Typed Unit EndTransaction)
  | generic (r : ExtendedRequest)
  deriving BEq, Repr

namespace KnownRequest

def toEnvelope : KnownRequest → ExtendedRequest
  | generatePassword x => GeneratePassword.extension.toEnvelope x
  | backupQuery x => BackupQuery.extension.toEnvelope x
  | startTransaction x => StartTransaction.extension.toEnvelope x
  | endTransaction x => EndTransaction.extension.toEnvelope x
  | generic r => r

def registry : Registry ExtendedRequest KnownRequest where
  generic := generic
  entries :=
    [.ofExtension GeneratePassword.extension generatePassword,
      .ofExtension BackupQuery.extension backupQuery,
      .ofExtension StartTransaction.extension startTransaction,
      .ofExtension EndTransaction.extension endTransaction]
  distinct := by decide

end KnownRequest

inductive KnownResult where
  | generatedPasswords (x : Typed OperationResult (Option GeneratedPasswords))
  | backupDescriptor (x : Typed OperationResult (Option BackupDescriptor))
  | generic (r : ExtendedResult)
  deriving BEq, Repr

namespace KnownResult

def toEnvelope : KnownResult → ExtendedResult
  | generatedPasswords x => GeneratedPasswords.extension.toEnvelope x
  | backupDescriptor x => BackupDescriptor.extension.toEnvelope x
  | generic r => r

def registry : Registry ExtendedResult KnownResult where
  generic := generic
  entries :=
    [.ofExtension GeneratedPasswords.extension generatedPasswords,
      .ofExtension BackupDescriptor.extension backupDescriptor]
  distinct := by decide

end KnownResult

inductive KnownIntermediate where
  | missingChangelog (x : Typed Unit MissingChangelog)
  | generic (r : IntermediateResponse)
  deriving BEq, Repr

namespace KnownIntermediate

def toEnvelope : KnownIntermediate → IntermediateResponse
  | missingChangelog x => MissingChangelog.extension.toEnvelope x
  | generic r => r

def registry : Registry IntermediateResponse KnownIntermediate where
  generic := generic
  entries := [.ofExtension MissingChangelog.extension missingChangelog]
  distinct := by decide

end KnownIntermediate

namespace JsonFormatted

def ofControls (controls : List Control) : JsonFormatted :=
  ⟨controls.map KnownControl.registry.toDocument⟩

def decodeControls {T : Type} (r : Registry Control T) (policy : DecodePolicy)
    (notes : List String) (x : JsonFormatted) : Except DecodeError (List T) × List String :=
  Embedded.decodeDocuments r policy notes x.controls

end JsonFormatted

end LdapCodec
