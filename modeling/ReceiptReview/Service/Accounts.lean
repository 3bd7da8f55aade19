import ReceiptReview.Model.Account
import ReceiptReview.Program.Basic

/-!
# Accounts and logins

`EmployeeService` with its callers: the login, the filter that validates the
session of a request, and the endpoints behind it.  None of them is one step.  A
login reads the account before it checks the password and saves the session; the
filter reads the account before the transaction of the endpoint; and a
transaction reads and locks its row before it commits.

A session is named by the call that has logged in.
-/

namespace ReceiptReview

open Java Store Outcome

/-- The transaction that commits. -/
inductive AccountOperation
  | issue (token : JString)
  | reissueSetupToken (token : JString)
  | setPassword (token : JString)
  | active (active : Bool) (actorId : Long)
  | bootstrap
  deriving DecidableEq, Repr

namespace AccountOperation

/-- The transaction inserts its row. -/
def inserts : AccountOperation → Bool
  | issue _ | bootstrap => true
  | _ => false

/-- The token that the transaction has issued. -/
def issued? : AccountOperation → Option JString
  | issue token | reissueSetupToken token => some token
  | _ => none

end AccountOperation

/-- The requests of a call to the session store, the database, the clock, the
source of random tokens and the password encoder. -/
inductive AccountRequest (ι : Type)
  | loadContext (session : ι)
  | saveContext (principal : EmployeePrincipal)
  | invalidate (session : ι)
  | findByLoginId (loginId : JString)
  | findById (id : Long)
  | findByIdForUpdate (id : Long)
  | findIdBySetupTokenHash (hash : JString)
  | lockBootstrap
  | count
  | now
  | nextToken
  | matchesHash (password passwordHash : JString)
  | encode (password : JString)
  | commit (operation : AccountOperation) (employee : Account)
  | rollback
  deriving DecidableEq, Repr

namespace AccountRequest

variable {ι : Type}

/-- What a request returns when it does not throw. -/
@[reducible] def Result : AccountRequest ι → Type
  | loadContext _ => Option EmployeePrincipal
  | saveContext _ | invalidate _ | rollback => Unit
  | findByLoginId _ | findById _ | findByIdForUpdate _ => Option Account
  | findIdBySetupTokenHash _ => Option Long
  | lockBootstrap => Option ℤ
  | count => ℕ
  | now => Instant
  | nextToken | encode _ => JString
  | matchesHash _ _ => Bool
  | commit _ _ => Account

abbrev Answer (request : AccountRequest ι) : Type := Except AccountFailure request.Result

end AccountRequest

/-- A part of a call. -/
abbrev AccountProgram (ι α : Type) : Type :=
  Program (AccountRequest ι) AccountRequest.Answer AccountFailure α

variable {ι α : Type}

namespace AccountRequest

/-- Make a request; its exception is the caller's. -/
def perform (request : AccountRequest ι) : AccountProgram ι request.Result :=
  Program.request request >>= Program.ofExcept

end AccountRequest

open AccountRequest

/-- `@Transactional`: an exception of the body rolls back. -/
def transactional (body : AccountProgram ι α) : AccountProgram ι α :=
  body.tryCatch fun exception => do
    let _ ← Program.request .rollback
    Program.throw exception

/-- `optional.orElseThrow(() -> e)`. -/
def present {β : Type} (value : Option β) (e : AccountFailure) : AccountProgram ι β :=
  match value with
  | some value => pure value
  | none => Program.throw e

namespace EmployeeService

def invalidToken : AccountFailure :=
  .responseStatus 400 (some "사용할 수 없는 비밀번호 설정 토큰입니다.")

def notFound : AccountFailure := .responseStatus 404 none

def validatePassword (password : JString) : Except AccountFailure Unit :=
  if password.length < 12 ∨ 72 < password.getBytes.length then
    .error (.illegalArgument "비밀번호는 12자 이상, UTF-8 72바이트 이하여야 합니다.")
  else .ok ()

def hash (P : Platform) (token : JString) : JString :=
  P.sha256 token.getBytes

/-- `Duration.ofHours(24)`, in nanoseconds. -/
def tokenLifetime : Duration := 24 * 60 * 60 * 1000000000

/-- `@PreAuthorize("hasRole('ADMIN')")`. -/
def preAuthorize (authority : Option EmployeeRole) : AccountProgram ι Unit :=
  if authority = some .admin then pure () else Program.throw .accessDenied

/-- The new hash takes the place of the old one. -/
def issueSetupToken (P : Platform) (operation : JString → AccountOperation) (employee : Account) :
    AccountProgram ι IssuedEmployee := do
  let token ← perform .nextToken
  let now ← perform .now
  let expires := now + tokenLifetime
  let employee ← perform (.commit (operation token) (employee.invite (hash P token) expires))
  return { employee := .ofAccount employee, setupToken := token, expiresAt := expires }

def issue (P : Platform) (authority : Option EmployeeRole) (request : IssueEmployeeRequest) :
    AccountProgram ι IssuedEmployee := do
  preAuthorize authority
  transactional (issueSetupToken P .issue (.new request.loginId request.name request.role))

def reissueSetupToken (P : Platform) (authority : Option EmployeeRole) (id : Long) :
    AccountProgram ι IssuedEmployee := do
  preAuthorize authority
  transactional do
    let employee ← present (← perform (.findByIdForUpdate id)) notFound
    if employee.passwordHash ≠ none then
      Program.throw
        (.setupConflict "이미 비밀번호를 설정한 직원에게는 설정 토큰을 재발급할 수 없습니다.")
    else if !employee.active then
      Program.throw (.setupConflict "비활성화된 직원에게는 설정 토큰을 재발급할 수 없습니다.")
    else issueSetupToken P .reissueSetupToken employee

/-- What is checked again once the row is locked, the time apart. -/
def acceptsToken (employee : Account) (tokenHash : JString) : Bool :=
  employee.hasSetupToken tokenHash && employee.active && employee.passwordHash.isNone

def setPassword (P : Platform) (request : SetPasswordRequest) : AccountProgram ι Unit :=
  transactional do
    let tokenHash := hash P request.token
    let employeeId ← present (← perform (.findIdBySetupTokenHash tokenHash)) invalidToken
    let employee ← present (← perform (.findByIdForUpdate employeeId)) invalidToken
    if !acceptsToken employee tokenHash then Program.throw invalidToken
    else
      match employee.setupExpiresAt with
      | none => Program.throw invalidToken
      | some expires => do
          let now ← perform .now
          if ¬ now < expires then Program.throw invalidToken
          else do
            Program.ofExcept (validatePassword request.password)
            let passwordHash ← perform (.encode request.password)
            let changed := employee.setPassword passwordHash
            let _ ← perform (.commit (.setPassword request.token) changed)

/-- The entity is written if it has changed. -/
def active (authority : Option EmployeeRole) (id : Long) (active : Bool) (actorId : Long) :
    AccountProgram ι EmployeeResponse := do
  preAuthorize authority
  transactional do
    if id = actorId ∧ active = false then
      Program.throw (.responseStatus 409 (some "자신을 비활성화할 수 없습니다."))
    else do
      let employee ← present (← perform (.findById id)) notFound
      let changed := employee.setActive active
      if changed = employee then return .ofAccount employee
      else do
        let _ ← perform (.commit (.active active actorId) changed)
        return .ofAccount changed

def bootstrap (loginId password : JString) : AccountProgram ι Unit :=
  transactional do
    if (← perform .lockBootstrap) ≠ some 1 then
      Program.throw (.illegalState "관리자 준비 잠금 행이 없습니다. Flyway 이관을 확인하세요.")
    else if (← perform .count) ≠ 0 then
      Program.throw
        (.illegalState "최초 관리자 준비는 직원 테이블이 비어 있을 때만 가능합니다.")
    else if !isLoginId loginId then
      Program.throw (.illegalArgument "관리자 로그인 ID 형식이 잘못되었습니다.")
    else do
      Program.ofExcept (validatePassword password)
      let passwordHash ← perform (.encode password)
      let employee := Account.new loginId (.ofString "초기 관리자") .admin
      let _ ← perform (.commit .bootstrap (employee.setPassword passwordHash))

end EmployeeService

namespace EmployeeUserDetailsService

/-- The provider answers a missing user as it does a wrong password. -/
def loadUserByUsername (loginId : JString) : AccountProgram ι (Account × JString) := do
  let employee ← present (← perform (.findByLoginId loginId)) .badCredentials
  let passwordHash ← present employee.passwordHash .badCredentials
  return (employee, passwordHash)

end EmployeeUserDetailsService

namespace LoginService

/-- The provider refuses an account that was loaded while inactive, before it
checks the password. -/
def login (request : LoginRequest) : AccountProgram ι Unit := do
  let (employee, passwordHash) ← EmployeeUserDetailsService.loadUserByUsername request.loginId
  if !employee.active then Program.throw .disabled
  else if !(← perform (.matchesHash request.password passwordHash)) then
    Program.throw .badCredentials
  else perform (.saveContext (.ofAccount employee))

end LoginService

namespace EmployeeSessionValidationFilter

/-- The account that the filter stores in the request. -/
def validated (principal : EmployeePrincipal) (employee : Option Account) : Option Account :=
  employee.filter fun employee => principal.isValidFor employee.toEmployee

/-- `chain` goes on with the account of the request, if it has a session. -/
def doFilterInternal (session : Option ι) (chain : Option Account → AccountProgram ι α) :
    AccountProgram ι α := do
  match session with
  | none => chain none
  | some session =>
      match ← perform (.loadContext session) with
      | none => chain none
      | some principal =>
          match validated principal (← perform (.findByLoginId principal.loginId)) with
          | some employee => chain (some employee)
          | none => do
              perform (.invalidate session)
              Program.throw .unauthorized

end EmployeeSessionValidationFilter

/-! ## Endpoints -/

inductive Endpoint
  | me
  | password (request : SetPasswordRequest)
  | issue (request : IssueEmployeeRequest)
  | reissueSetupToken (id : Long)
  | active (id : Long) (active : Bool)
  deriving DecidableEq, Repr

inductive AccountResult
  | noContent
  | employee (response : EmployeeResponse)
  | issued (response : IssuedEmployee)
  deriving DecidableEq, Repr

namespace EmployeeController

/-- `getCurrentEmployee` in a request that has passed the filter: the principal
was made anew of the account that the filter has stored. -/
def currentEmployee (employee : Account) : AccountProgram ι Employee :=
  match CurrentEmployeeService.getCurrentEmployee .empty
      ⟨some (.ofAccount employee), some employee.toEmployee⟩ with
  | .ok employee => pure employee
  | .error _ => Program.throw .unauthorized

/-- The authority that `/api/employees` asks for. -/
def authorize (employee : Option Account) : AccountProgram ι Account :=
  match employee with
  | none => Program.throw .unauthorized
  | some employee =>
      if employee.role = .admin then pure employee else Program.throw .accessDenied

/-- A request that has passed the filter. -/
def handle (P : Platform) (endpoint : Endpoint) (employee : Option Account) :
    AccountProgram ι AccountResult :=
  match endpoint with
  | .me => do
      let employee ← present employee .unauthorized
      let _ ← currentEmployee employee
      return .employee (.ofAccount employee)
  | .password request =>
      if !request.isValid then Program.throw .badRequest
      else do
        EmployeeService.setPassword P request
        return .noContent
  | .issue request => do
      let employee ← authorize employee
      if !request.isValid then Program.throw .badRequest
      else do
        let response ← EmployeeService.issue P (some employee.role) request
        return .issued response
  | .reissueSetupToken id => do
      let employee ← authorize employee
      let response ← EmployeeService.reissueSetupToken P (some employee.role) id
      return .issued response
  | .active id active => do
      let employee ← authorize employee
      let actor ← currentEmployee employee
      let response ← EmployeeService.active (some employee.role) id active actor.id
      return .employee response

end EmployeeController

/-! ## Calls -/

/-- A method of `EmployeeService`, called from inside the application. -/
inductive ServiceCall
  | issue (request : IssueEmployeeRequest)
  | reissueSetupToken (id : Long)
  | setPassword (request : SetPasswordRequest)
  | active (id : Long) (active : Bool) (actorId : Long)
  | bootstrap (loginId password : JString)
  deriving DecidableEq, Repr

/-- A login, a request with the session that it presents, or a call of the service
with the authority of its caller. -/
inductive AccountCall (ι : Type)
  | login (request : LoginRequest)
  | http (session : Option ι) (endpoint : Endpoint)
  | service (authority : Option EmployeeRole) (call : ServiceCall)
  deriving DecidableEq, Repr

namespace AccountCall

def program (P : Platform) : AccountCall ι → AccountProgram ι AccountResult
  | login request =>
      if !request.isValid then Program.throw .badRequest
      else do
        LoginService.login request
        return .noContent
  | http session endpoint =>
      EmployeeSessionValidationFilter.doFilterInternal session
        (EmployeeController.handle P endpoint)
  | service authority (.issue request) => do
      let response ← EmployeeService.issue P authority request
      return .issued response
  | service authority (.reissueSetupToken id) => do
      let response ← EmployeeService.reissueSetupToken P authority id
      return .issued response
  | service _ (.setPassword request) => do
      EmployeeService.setPassword P request
      return .noContent
  | service authority (.active id active actorId) => do
      let response ← EmployeeService.active authority id active actorId
      return .employee response
  | service _ (.bootstrap loginId password) => do
      EmployeeService.bootstrap loginId password
      return .noContent

end AccountCall

end ReceiptReview
