import Edda.Support.RustText

/-!
# Registration

Who may sign up, as an instance is configured, and the gates that the status of an account puts
before a session.
-/

set_option autoImplicit false

namespace Edda.Domain

open Edda.Support.RustText

inductive RegistrationMode where
  | «open»
  | approval
  | closed
  deriving DecidableEq, Repr

/-- A text without the white space around it, in lower case (`to_ascii_lowercase`; `Char.toLower`
changes ASCII letters alone). -/
def trimmedLower (value : String) : String :=
  String.ofList ((trim value.toList).map Char.toLower)

def RegistrationMode.parse (value : String) : Option RegistrationMode :=
  let text := trimmedLower value
  if text = "open" then some .open
  else if text = "approval" then some .approval
  else if text = "closed" then some .closed
  else none

def RegistrationMode.asDbStr : RegistrationMode → String
  | .open => "open"
  | .approval => "approval"
  | .closed => "closed"

structure RegistrationPolicy where
  mode : RegistrationMode
  allowedEmailDomains : List String
  requireEmailVerification : Bool
  deriving DecidableEq, Repr

def RegistrationPolicy.permitsSignup (policy : RegistrationPolicy) : Bool :=
  decide (policy.mode ≠ .closed)

def RegistrationPolicy.autoApproves (policy : RegistrationPolicy) : Bool :=
  decide (policy.mode ≠ .approval)

/-- `eq_ignore_ascii_case`; `Char.toLower` changes ASCII letters alone. -/
def eqIgnoreAsciiCase (a b : String) : Bool :=
  decide (a.toList.map Char.toLower = b.toList.map Char.toLower)

/-- What follows the last `@` of an email address. -/
def emailDomain (email : String) : String :=
  String.ofList (email.toList.reverse.takeWhile (· ≠ '@')).reverse

/-- An empty list of domains allows every address. -/
def emailDomainAllowed (allowed : List String) (email : String) : Bool :=
  allowed.isEmpty || (decide (emailDomain email ≠ "") &&
    allowed.any fun domain => eqIgnoreAsciiCase domain (emailDomain email))

def RegistrationPolicy.emailDomainAllowed (policy : RegistrationPolicy) (email : String) : Bool :=
  Domain.emailDomainAllowed policy.allowedEmailDomains email

/-- The columns of `users` that say whether an account may act. -/
structure AccountStatus where
  disabledAt : Option Int
  emailVerifiedAt : Option Int
  approvedAt : Option Int
  deriving DecidableEq, Repr

inductive AccountStatusError where
  | disabled
  | pendingApproval
  deriving DecidableEq, Repr

def AccountStatusError.message : AccountStatusError → String
  | .disabled => "this account has been disabled"
  | .pendingApproval => "this account is awaiting administrator approval"

def requireCanAuthenticate (status : AccountStatus) : Except AccountStatusError Unit :=
  if status.disabledAt.isSome then .error .disabled
  else if status.approvedAt.isNone then .error .pendingApproval
  else .ok ()

end Edda.Domain
