import ReceiptReview.Model.Configuration
import ReceiptReview.Model.Database
import ReceiptReview.Model.Employee

/-!
# Accounts

The whole row of `employees`: besides what the receipts ask for, the name and the
setup token with which the password is chosen.  The login id and the hash of the
token are compared byte by byte (`ascii_bin`).

A principal remembers the session version of the account it was made of; it is
valid for the account as long as that version stays.
-/

namespace ReceiptReview

open Java Store

/-- A row of `employees`, with all of its columns. -/
structure Account extends Employee where
  name : JString
  setupTokenHash : Option JString
  setupExpiresAt : Option Instant
  deriving DecidableEq, Repr

instance : Entity Account where
  key account := account.id
  version account := account.version
  withVersion account version := { account with version }
  key_withVersion _ _ := rfl
  version_withVersion _ _ := rfl

@[simp] theorem Account.key_eq (account : Account) : Entity.key account = account.id := rfl

@[simp] theorem Account.version_eq (account : Account) :
    Entity.version account = account.version := rfl

namespace Account

/-- The constructor; the id is assigned by the insert. -/
def new (loginId name : JString) (role : EmployeeRole) : Account where
  id := unsaved
  version := 0
  sessionVersion := 0
  loginId := loginId
  passwordHash := none
  role := role
  active := true
  name := name
  setupTokenHash := none
  setupExpiresAt := none

def hasSetupToken (account : Account) (hash : JString) : Bool :=
  account.setupTokenHash == some hash

def invite (account : Account) (hash : JString) (expires : Instant) : Account :=
  { account with setupTokenHash := some hash, setupExpiresAt := some expires }

def setPassword (account : Account) (hash : JString) : Account :=
  { account with passwordHash := some hash, setupTokenHash := none, setupExpiresAt := none }

/-- The sessions of an account are revoked when it is deactivated, and stay so. -/
def setActive (account : Account) (active : Bool) : Account :=
  { account with
    active
    sessionVersion :=
      if account.active && !active then account.sessionVersion + 1 else account.sessionVersion }

/-- The account can administer the system. -/
def Administers (account : Account) : Prop :=
  account.role = .admin ∧ account.active = true ∧ account.passwordHash ≠ none

instance (account : Account) : Decidable account.Administers :=
  inferInstanceAs (Decidable (_ ∧ _ ∧ _))

end Account

/-- The accounts as the receipts know them. -/
def Accounts.employees (accounts : Table Account) : Table Employee where
  rows := accounts.rows.map Account.toEmployee
  keys_nodup := by
    rw [List.map_map]
    exact accounts.keys_nodup

namespace EmployeeRepository

def findByLoginId (accounts : Table Account) (loginId : JString) : Option Account :=
  accounts.rows.find? fun account => account.loginId == loginId

def findIdBySetupTokenHash (accounts : Table Account) (hash : JString) : Option Long :=
  (accounts.rows.find? fun account => account.setupTokenHash == some hash).map (·.id)

end EmployeeRepository

namespace EmployeePrincipal

/-- `forAuthentication` and `forSession`, which differ in the password alone. -/
def ofAccount (account : Account) : EmployeePrincipal where
  employeeId := account.id
  loginId := account.loginId
  sessionVersion := account.sessionVersion

end EmployeePrincipal

/-! ## Requests and responses -/

structure EmployeeResponse where
  id : Long
  loginId : JString
  name : JString
  role : EmployeeRole
  active : Bool
  deriving DecidableEq, Repr

/-- `EmployeeResponse.from`. -/
def EmployeeResponse.ofAccount (account : Account) : EmployeeResponse where
  id := account.id
  loginId := account.loginId
  name := account.name
  role := account.role
  active := account.active

structure IssuedEmployee where
  employee : EmployeeResponse
  setupToken : JString
  expiresAt : Instant
  deriving DecidableEq, Repr

/-- `[a-z0-9._-]{3,64}`. -/
def isLoginId (text : JString) : Bool :=
  3 ≤ text.length && text.length ≤ 64 && text.all fun unit =>
    (0x61 ≤ unit && unit ≤ 0x7A) || (0x30 ≤ unit && unit ≤ 0x39) ||
      unit == 0x2E || unit == 0x5F || unit == 0x2D

/-- `@NotBlank`. -/
def isNotBlank (text : JString) : Bool := 0 < text.trim.length

structure IssueEmployeeRequest where
  loginId : JString
  name : JString
  role : EmployeeRole
  deriving DecidableEq, Repr

/-- The constraints that `@Valid` checks. -/
def IssueEmployeeRequest.isValid (request : IssueEmployeeRequest) : Bool :=
  isNotBlank request.loginId && isLoginId request.loginId && isNotBlank request.name &&
    request.name.length ≤ 100

structure LoginRequest where
  loginId : JString
  password : JString
  deriving DecidableEq, Repr

def LoginRequest.isValid (request : LoginRequest) : Bool :=
  isNotBlank request.loginId && request.loginId.length ≤ 64 && isNotBlank request.password &&
    request.password.length ≤ 72

structure SetPasswordRequest where
  token : JString
  password : JString
  deriving DecidableEq, Repr

def SetPasswordRequest.isValid (request : SetPasswordRequest) : Bool :=
  isNotBlank request.token && request.token.length ≤ 100 && isNotBlank request.password &&
    12 ≤ request.password.length && request.password.length ≤ 72

/-- The exceptions of the account services. -/
inductive AccountFailure
  | responseStatus (status : ℕ) (reason : Option String)
  | setupConflict (message : String)
  | illegalArgument (message : String)
  | illegalState (message : String)
  /-- The answer 400 to a request that `@Valid` refuses. -/
  | badRequest
  /-- The answer 401 to a request without a valid session. -/
  | unauthorized
  /-- The answer 403 to a request without the authority. -/
  | accessDenied
  | badCredentials
  | disabled
  | optimisticLockingFailure
  | dataIntegrityViolation
  /-- Any other unchecked exception of a collaborator. -/
  | other
  deriving DecidableEq, Repr

end ReceiptReview
