import ReceiptReview.Program.Transcript
import ReceiptReview.Service.Accounts

/-!
# The paths of an account call

What a call requests, and after which answers.  A transaction of the service
writes a row that it has read, and only after its checks (`Writes`); a login saves
the principal of the account that it has read as active (`Authenticated`); and a
request with a session goes on only if the principal of the session is valid for
the account that the filter has read (`Passed`).

Nothing here mentions the database, and the answers are arbitrary.
-/

namespace ReceiptReview

open Java Store EmployeeService AccountRequest

variable {P : Platform} {ι α β : Type}

abbrev AccountExchange (ι : Type) : Type := Exchange (AccountRequest ι) AccountRequest.Answer

abbrev AccountTranscript (ι : Type) : Type := Transcript (AccountRequest ι) AccountRequest.Answer

/-- A request of a transaction, not of the login or the filter. -/
def AccountRequest.isService : AccountRequest ι → Bool
  | loadContext _ | saveContext _ | invalidate _ | findByLoginId _ | matchesHash _ _ => false
  | _ => true

/-- The request reads an account by its login id. -/
def AccountRequest.isRead : AccountRequest ι → Bool
  | findByLoginId _ => true
  | _ => false

/-- The request ends its transaction. -/
def AccountRequest.isLast : AccountRequest ι → Bool
  | commit _ _ | rollback => true
  | _ => false

namespace AccountTranscript

/-- The request was answered with this result. -/
def Answered (past : AccountTranscript ι) (request : AccountRequest ι) (result : request.Result) :
    Prop :=
  (⟨request, .ok result⟩ : AccountExchange ι) ∈ past

variable {past : AccountTranscript ι} {exchange : AccountExchange ι}

theorem Answered.mono {past' : AccountTranscript ι} {request : AccountRequest ι}
    {result : request.Result} (h : Answered past request result) (hlater : past <:+ past') :
    Answered past' request result :=
  hlater.subset h

/-- The row that a transaction writes, after what it has been told. -/
def Writes (P : Platform) (past : AccountTranscript ι) : AccountOperation → Account → Prop
  | .issue token, row => ∃ loginId name role expires,
      row = (Account.new loginId name role).invite (hash P token) expires
  | .bootstrap, row => ∃ loginId name passwordHash,
      row = (Account.new loginId name .admin).setPassword passwordHash
  | .reissueSetupToken token, row => ∃ id employee expires,
      Answered past (.findByIdForUpdate id) (some employee) ∧ employee.passwordHash = none ∧
        employee.active = true ∧ row = employee.invite (hash P token) expires
  | .setPassword token, row => ∃ id employee expires now password passwordHash older,
      past = ⟨.encode password, .ok passwordHash⟩ :: ⟨.now, .ok now⟩ ::
        ⟨.findByIdForUpdate id, .ok (some employee)⟩ ::
        ⟨.findIdBySetupTokenHash (hash P token), .ok (some id)⟩ :: older ∧
      acceptsToken employee (hash P token) = true ∧ employee.setupExpiresAt = some expires ∧
        now < expires ∧ row = employee.setPassword passwordHash
  | .active active actorId, row => ∃ id employee,
      Answered past (.findById id) (some employee) ∧ (active = false → id ≠ actorId) ∧
        row = employee.setActive active

/-- The principal of an account that the login has read while it was active and
had a password. -/
def Authenticated (past : AccountTranscript ι) (principal : EmployeePrincipal) : Prop :=
  ∃ loginId employee, Answered past (.findByLoginId loginId) (some employee) ∧
    employee.active = true ∧ employee.passwordHash ≠ none ∧ principal = .ofAccount employee

/-- The filter has refused the session. -/
def Refused (past : AccountTranscript ι) (session : ι) : Prop :=
  ∃ principal found, Answered past (.loadContext session) (some principal) ∧
    Answered past (.findByLoginId principal.loginId) found ∧
    EmployeeSessionValidationFilter.validated principal found = none

/-- The filter has let the request pass, with the account of the session or, where
there is no session, with none. -/
def Passed (past : AccountTranscript ι) (session : ι) : Prop :=
  Answered past (.loadContext session) none ∨ ∃ principal found employee,
    Answered past (.loadContext session) (some principal) ∧
      Answered past (.findByLoginId principal.loginId) found ∧
      EmployeeSessionValidationFilter.validated principal found = some employee

theorem Refused.mono {past' : AccountTranscript ι} {session : ι} (h : Refused past session)
    (hlater : past <:+ past') : Refused past' session := by
  obtain ⟨principal, found, hload, hread, hinvalid⟩ := h
  exact ⟨principal, found, hload.mono hlater, hread.mono hlater, hinvalid⟩

theorem Passed.mono {past' : AccountTranscript ι} {session : ι} (h : Passed past session)
    (hlater : past <:+ past') : Passed past' session := by
  rcases h with hnone | ⟨principal, found, employee, hload, hread, hvalid⟩
  · exact .inl (hnone.mono hlater)
  · exact .inr ⟨principal, found, employee, hload.mono hlater, hread.mono hlater, hvalid⟩

end AccountTranscript

open AccountTranscript

/-- What a transaction of the service requests. -/
def ServiceAllows (P : Platform) (past : AccountTranscript ι) (request : AccountRequest ι) : Prop :=
  request.isService = true ∧
    ∀ operation row, request = .commit operation row → Writes P past operation row

/-- The session that a call presents. -/
def AccountCall.session? : AccountCall ι → Option ι
  | .http session _ => session
  | _ => none

/-- What a call requests. -/
def AccountAllows (P : Platform) (call : AccountCall ι) (past : AccountTranscript ι) :
    AccountRequest ι → Prop
  | .loadContext session => call.session? = some session ∧ past = []
  | .saveContext principal => Authenticated past principal
  | .invalidate session => call.session? = some session ∧ Refused past session
  | .findByLoginId _ => ∀ exchange ∈ past, exchange.request.isRead = false
  | .matchesHash _ _ => True
  | request =>
      (∀ session, call.session? = some session → Passed past session) ∧
        ServiceAllows P past request

/-- A transaction of a request starts only after the filter has let it pass. -/
theorem AccountAllows.passed {call : AccountCall ι} {past : AccountTranscript ι}
    {request : AccountRequest ι} (h : AccountAllows P call past request)
    (hservice : request.isService = true) {session : ι} (hsession : call.session? = some session) :
    Passed past session := by
  cases request with
  | loadContext | saveContext | invalidate | findByLoginId | matchesHash =>
      exact absurd hservice (by simp [isService])
  | findById | findByIdForUpdate | findIdBySetupTokenHash | lockBootstrap | count | now
  | nextToken | encode | commit | rollback => exact h.1 session hsession

/-- What a program requests, however it ends. -/
abbrev requestsAlong (allows : AccountTranscript ι → AccountRequest ι → Prop)
    (p : AccountProgram ι α) (past : AccountTranscript ι) : Prop :=
  Program.along (fun _ _ => True) allows p (fun _ _ => True) past

section Requests

variable {allows : AccountTranscript ι → AccountRequest ι → Prop}
variable {past : AccountTranscript ι} {p : AccountProgram ι α} {f : α → AccountProgram ι β}

theorem requestsAlong_bind (hp : requestsAlong allows p past)
    (hf : ∀ a past', past <:+ past' → requestsAlong allows (f a) past') :
    requestsAlong allows (p >>= f) past := by
  rw [requestsAlong, Program.along_bind]
  refine Program.along_imp hp (fun _ _ _ hallows => hallows) fun outcome past' hlater _ => ?_
  cases outcome with
  | ok a => exact hf a past' hlater
  | error e => trivial

/-- What follows a request may use its answer. -/
theorem requestsAlong_perform {request : AccountRequest ι}
    {f : request.Result → AccountProgram ι β} (hallows : allows past request)
    (hf : ∀ result, requestsAlong allows (f result) (⟨request, .ok result⟩ :: past)) :
    requestsAlong allows (perform request >>= f) past := by
  refine ⟨hallows, fun answer _ => ?_⟩
  cases answer with
  | ok result => exact hf result
  | error e => trivial

theorem requestsAlong_transactional (hrollback : ∀ past, allows past .rollback)
    (hp : requestsAlong allows p past) : requestsAlong allows (transactional p) past := by
  unfold transactional
  rw [requestsAlong, Program.along_tryCatch]
  refine Program.along_mono hp fun outcome past' _ => ?_
  cases outcome with
  | ok a => trivial
  | error e => exact ⟨hrollback past', fun _ _ => trivial⟩

theorem requestsAlong_preAuthorize {authority : Option EmployeeRole}
    (hp : requestsAlong allows p past) :
    requestsAlong allows (do preAuthorize authority; p) past := by
  unfold preAuthorize
  split
  · exact hp
  · trivial

theorem requestsAlong_present {value : Option α} {e : AccountFailure}
    (hf : ∀ a, value = some a → requestsAlong allows (f a) past) :
    requestsAlong allows (present value e >>= f) past := by
  cases value with
  | none => trivial
  | some a => exact hf a rfl

theorem requestsAlong_currentEmployee (employee : Account) :
    requestsAlong allows (EmployeeController.currentEmployee employee) past := by
  unfold EmployeeController.currentEmployee
  split <;> trivial

theorem requestsAlong_authorize (employee : Option Account) :
    requestsAlong allows (EmployeeController.authorize employee) past := by
  unfold EmployeeController.authorize
  split
  · trivial
  · split <;> trivial

end Requests

/-! ## Transactions of the service -/

abbrev serviceAlong (P : Platform) (p : AccountProgram ι α) (past : AccountTranscript ι) : Prop :=
  Program.along (fun _ _ => True) (ServiceAllows P) p (fun _ _ => True) past

section Service

variable {past : AccountTranscript ι} {p : AccountProgram ι α}

theorem serviceAlong_transactional (hp : serviceAlong P p past) :
    serviceAlong P (transactional p) past :=
  requestsAlong_transactional (fun _ => ⟨rfl, by simp⟩) hp

/-- A request of the service that is no commit. -/
theorem ServiceAllows.of_request {request : AccountRequest ι} (hservice : request.isService = true)
    (hcommit : ∀ operation row, request ≠ .commit operation row) : ServiceAllows P past request :=
  ⟨hservice, fun operation row heq => absurd heq (hcommit operation row)⟩

theorem ServiceAllows.commit {operation : AccountOperation} {row : Account}
    (h : Writes P past operation row) : ServiceAllows P past (.commit operation row) := by
  refine ⟨rfl, fun operation' row' heq => ?_⟩
  cases heq
  exact h

theorem serviceAlong_issueSetupToken {operation : JString → AccountOperation} {employee : Account}
    (hwrites : ∀ token expires past', past <:+ past' →
      Writes P past' (operation token) (employee.invite (hash P token) expires)) :
    serviceAlong P (issueSetupToken P operation employee) past := by
  refine requestsAlong_perform (.of_request rfl (by simp)) fun token => ?_
  refine requestsAlong_perform (.of_request rfl (by simp)) fun now => ?_
  refine requestsAlong_perform (.commit ?_) fun stored => trivial
  exact hwrites token (now + tokenLifetime) _
    ((List.suffix_cons _ _).trans (List.suffix_cons _ _))

theorem serviceAlong_issue (authority : Option EmployeeRole) (request : IssueEmployeeRequest) :
    serviceAlong P (issue P authority request) past := by
  refine requestsAlong_preAuthorize (serviceAlong_transactional ?_)
  exact serviceAlong_issueSetupToken fun token expires past' _ => ⟨_, _, _, _, rfl⟩

theorem serviceAlong_reissueSetupToken (authority : Option EmployeeRole) (id : Long) :
    serviceAlong P (reissueSetupToken P authority id) past := by
  refine requestsAlong_preAuthorize (serviceAlong_transactional ?_)
  refine requestsAlong_perform (.of_request rfl (by simp)) fun found => ?_
  refine requestsAlong_present fun employee hfound => ?_
  subst hfound
  split
  · trivial
  · rename_i hpassword
    split
    · trivial
    · rename_i hactive
      refine serviceAlong_issueSetupToken fun token expires past' hlater => ?_
      exact ⟨id, employee, expires, hlater.subset List.mem_cons_self, by simpa using hpassword,
        by simpa using hactive, rfl⟩

theorem serviceAlong_setPassword (request : SetPasswordRequest) :
    serviceAlong P (setPassword P request) past := by
  refine serviceAlong_transactional ?_
  refine requestsAlong_perform (.of_request rfl (by simp)) fun found => ?_
  refine requestsAlong_present fun id hfound => ?_
  subst hfound
  refine requestsAlong_perform (.of_request rfl (by simp)) fun found => ?_
  refine requestsAlong_present fun employee hfound => ?_
  subst hfound
  split
  · trivial
  · rename_i haccepts
    split
    · trivial
    · rename_i expires hexpires
      refine requestsAlong_perform (.of_request rfl (by simp)) fun now => ?_
      split
      · trivial
      · rename_i hunexpired
        cases validatePassword request.password with
        | error e => trivial
        | ok _ =>
            refine requestsAlong_perform (.of_request rfl (by simp)) fun passwordHash => ?_
            refine requestsAlong_perform (.commit ?_) fun stored => trivial
            exact ⟨id, employee, expires, now, _, passwordHash, past, rfl, by simpa using haccepts,
              hexpires, not_not.mp hunexpired, rfl⟩

theorem serviceAlong_active (authority : Option EmployeeRole) (id : Long) (active : Bool)
    (actorId : Long) :
    serviceAlong P (EmployeeService.active authority id active actorId) past := by
  refine requestsAlong_preAuthorize (serviceAlong_transactional ?_)
  split
  · trivial
  · rename_i hother
    refine requestsAlong_perform (.of_request rfl (by simp)) fun found => ?_
    refine requestsAlong_present fun employee hfound => ?_
    subst hfound
    simp only
    split
    · trivial
    · refine requestsAlong_perform (.commit ?_) fun stored => trivial
      exact ⟨id, employee, List.mem_cons_self, fun hactive hid => hother ⟨hid, hactive⟩, rfl⟩

theorem serviceAlong_bootstrap (loginId password : JString) :
    serviceAlong P (bootstrap loginId password) past := by
  refine serviceAlong_transactional ?_
  refine requestsAlong_perform (.of_request rfl (by simp)) fun row => ?_
  split
  · trivial
  · refine requestsAlong_perform (.of_request rfl (by simp)) fun count => ?_
    split
    · trivial
    · split
      · trivial
      · cases validatePassword password with
        | error e => trivial
        | ok _ =>
            refine requestsAlong_perform (.of_request rfl (by simp)) fun passwordHash => ?_
            exact requestsAlong_perform (.commit ⟨_, _, _, rfl⟩) fun stored => trivial

theorem serviceAlong_handle (endpoint : Endpoint) (employee : Option Account) :
    serviceAlong P (EmployeeController.handle P endpoint employee) past := by
  cases endpoint with
  | me =>
      refine requestsAlong_present fun employee _ => ?_
      exact requestsAlong_bind (requestsAlong_currentEmployee _) fun _ _ _ => trivial
  | password request =>
      show serviceAlong P (if (!request.isValid) = true then _ else _) past
      split
      · trivial
      · exact requestsAlong_bind (serviceAlong_setPassword _) fun _ _ _ => trivial
  | issue request =>
      refine requestsAlong_bind (requestsAlong_authorize _) fun employee past _ => ?_
      split
      · trivial
      · exact requestsAlong_bind (serviceAlong_issue _ _) fun _ _ _ => trivial
  | reissueSetupToken id =>
      refine requestsAlong_bind (requestsAlong_authorize _) fun employee past _ => ?_
      exact requestsAlong_bind (serviceAlong_reissueSetupToken _ _) fun _ _ _ => trivial
  | active id active =>
      refine requestsAlong_bind (requestsAlong_authorize _) fun employee past _ => ?_
      refine requestsAlong_bind (requestsAlong_currentEmployee _) fun actor past _ => ?_
      exact requestsAlong_bind (serviceAlong_active _ _ _ _) fun _ _ _ => trivial

end Service

/-! ## Calls -/

/-- How a call ends: with a result only if the filter has let it pass. -/
def AccountEnds (call : AccountCall ι) (outcome : Except AccountFailure AccountResult)
    (past : AccountTranscript ι) : Prop :=
  ∀ session result, call.session? = some session → outcome = .ok result → Passed past session

abbrev accountAlong (P : Platform) (call : AccountCall ι)
    (p : AccountProgram ι AccountResult) (past : AccountTranscript ι) : Prop :=
  Program.along (fun _ _ => True) (AccountAllows P call) p (AccountEnds call) past

variable {call : AccountCall ι} {past : AccountTranscript ι}

theorem accountAlong_of_service {p : AccountProgram ι AccountResult} (hp : serviceAlong P p past)
    (hpassed : ∀ session, call.session? = some session → Passed past session) :
    accountAlong P call p past := by
  refine Program.along_imp hp (fun past' request hlater hallows => ?_)
    fun outcome past' hlater _ session result hsession _ => (hpassed session hsession).mono hlater
  have hpassed' : ∀ session, call.session? = some session → Passed past' session :=
    fun session hsession => (hpassed session hsession).mono hlater
  cases request with
  | loadContext | saveContext | invalidate | findByLoginId | matchesHash =>
      exact absurd hallows.1 (by simp [isService])
  | findById | findByIdForUpdate | findIdBySetupTokenHash | lockBootstrap | count | now
  | nextToken | encode | commit | rollback => exact ⟨hpassed', hallows⟩

theorem accountAlong_perform {request : AccountRequest ι}
    {f : request.Result → AccountProgram ι AccountResult}
    (hallows : AccountAllows P call past request)
    (hf : ∀ result, accountAlong P call (f result) (⟨request, .ok result⟩ :: past)) :
    accountAlong P call (perform request >>= f) past := by
  refine ⟨hallows, fun answer _ => ?_⟩
  cases answer with
  | ok result => exact hf result
  | error e => exact fun _ _ _ hok => absurd hok (by simp)

/-- The filter goes on only with a session that is valid for the account it has read. -/
theorem accountAlong_http (session : Option ι) (endpoint : Endpoint) :
    accountAlong P (.http session endpoint)
      (EmployeeSessionValidationFilter.doFilterInternal session
        (EmployeeController.handle P endpoint)) [] := by
  cases session with
  | none =>
      refine accountAlong_of_service (serviceAlong_handle _ _) fun session hsession => ?_
      exact absurd hsession (by simp [AccountCall.session?])
  | some session =>
      refine accountAlong_perform ⟨rfl, rfl⟩ fun loaded => ?_
      cases loaded with
      | none =>
          -- a session that has ended: the request goes on without a principal
          refine accountAlong_of_service (serviceAlong_handle _ _) fun other hother => ?_
          obtain rfl : session = other := Option.some.inj hother
          exact .inl List.mem_cons_self
      | some principal =>
          refine accountAlong_perform (fun exchange hmem => ?_) fun found => ?_
          · rw [List.mem_singleton.mp hmem]
            rfl
          · have hload : Answered
                [(⟨.findByLoginId principal.loginId, .ok found⟩ : AccountExchange ι),
                  ⟨.loadContext session, .ok (some principal)⟩]
                (.loadContext session) (some principal) := by simp [Answered]
            have hread : Answered
                [(⟨.findByLoginId principal.loginId, .ok found⟩ : AccountExchange ι),
                  ⟨.loadContext session, .ok (some principal)⟩]
                (.findByLoginId principal.loginId) found := by simp [Answered]
            -- the session goes on, or it is invalidated and the request refused
            split
            · rename_i employee hvalid
              refine accountAlong_of_service (serviceAlong_handle _ _) fun other hother => ?_
              obtain rfl : session = other := Option.some.inj hother
              exact .inr ⟨principal, found, employee, hload, hread, hvalid⟩
            · rename_i hrefused
              refine accountAlong_perform ⟨rfl, principal, found, hload, hread, hrefused⟩ ?_
              exact fun _ _ _ _ hok => absurd hok (by simp)

/-- A session is saved for the account that was read. -/
theorem accountAlong_login (request : LoginRequest) :
    accountAlong P (AccountCall.login request : AccountCall ι)
      (AccountCall.program P (.login request)) [] := by
  have hends : ∀ outcome past,
      AccountEnds (AccountCall.login request : AccountCall ι) outcome past :=
    fun _ _ session _ hsession _ => absurd hsession (by simp [AccountCall.session?])
  show accountAlong P _ (if (!request.isValid) = true then _ else _) []
  split
  · exact hends _ _
  · refine ⟨fun _ hmem => absurd hmem List.not_mem_nil, fun found _ => ?_⟩
    cases found with
    | error e => exact hends _ _
    | ok found =>
        cases found with
        | none => exact hends _ _
        | some employee =>
            -- the account decides by its password and its flag
            obtain ⟨⟨id, version, sessionVersion, loginId, password, role, active⟩, name, _, _⟩ :=
              employee
            cases password with
            | none => exact hends _ _
            | some passwordHash =>
                cases active with
                | false => exact hends _ _
                | true =>
                    refine ⟨trivial, fun matched _ => ?_⟩
                    cases matched with
                    | error e => exact hends _ _
                    | ok matched =>
                        cases matched with
                        | false => exact hends _ _
                        | true =>
                            refine ⟨⟨request.loginId, _, ?_, rfl, by simp, rfl⟩, fun saved _ => ?_⟩
                            · exact List.mem_cons_of_mem _ List.mem_cons_self
                            · cases saved <;> exact hends _ _

theorem along_program (call : AccountCall ι) :
    accountAlong P call (call.program P) [] := by
  cases call with
  | login request => exact accountAlong_login request
  | http session endpoint => exact accountAlong_http session endpoint
  | service authority service =>
      refine accountAlong_of_service ?_ fun session hsession =>
        absurd hsession (by simp [AccountCall.session?])
      cases service with
      | issue request => exact requestsAlong_bind (serviceAlong_issue _ _) fun _ _ _ => trivial
      | reissueSetupToken id =>
          exact requestsAlong_bind (serviceAlong_reissueSetupToken _ _) fun _ _ _ => trivial
      | setPassword request =>
          exact requestsAlong_bind (serviceAlong_setPassword _) fun _ _ _ => trivial
      | active id active actorId =>
          exact requestsAlong_bind (serviceAlong_active _ _ _ _) fun _ _ _ => trivial
      | bootstrap loginId password =>
          exact requestsAlong_bind (serviceAlong_bootstrap _ _) fun _ _ _ => trivial

/-! ## Accounts that are created -/

/-- The filter has read an account. -/
def ReadAccount (past : AccountTranscript ι) : Prop :=
  ∃ loginId employee, Answered past (.findByLoginId loginId) (some employee)

/-- The call prepares the first administrator. -/
def AccountCall.isBootstrap : AccountCall ι → Bool
  | .service _ (.bootstrap _ _) => true
  | _ => false

/-- The lock row is there. -/
def lockedExchange : AccountExchange ι := ⟨.lockBootstrap, .ok (some 1)⟩

/-- There was no account. -/
def emptyExchange : AccountExchange ι := ⟨.count, .ok 0⟩

/-- What the insertion of an account rests on: an account that the filter has read, or
the authority of a direct call; and for the first administrator the row that the call
has locked, the accounts that it has then counted and the checks of its arguments. -/
def Justified (call : AccountCall ι) (past : AccountTranscript ι) : AccountOperation → Prop
  | .issue _ => call.isBootstrap = false ∧
      ((∃ authority request, call = .service authority (.issue request)) ∨ ReadAccount past)
  | .bootstrap => ∃ authority loginId password passwordHash,
      call = .service authority (.bootstrap loginId password) ∧
      past = [⟨.encode password, .ok passwordHash⟩, emptyExchange, lockedExchange] ∧
      isLoginId loginId = true ∧ validatePassword password = .ok ()
  | _ => call.isBootstrap = false

/-- The order of the requests of the bootstrap, and what the commits rest on. -/
def CreationAllows (call : AccountCall ι) (past : AccountTranscript ι) :
    AccountRequest ι → Prop
  | .lockBootstrap => past = []
  | .count => past = [lockedExchange]
  | .commit operation _ => Justified call past operation
  | _ => True

section Created

variable {call : AccountCall ι} {past : AccountTranscript ι}

abbrev justifiedAlong (call : AccountCall ι) (p : AccountProgram ι α)
    (past : AccountTranscript ι) : Prop :=
  requestsAlong (CreationAllows call) p past

theorem justifiedAlong_transactional {p : AccountProgram ι α} (hp : justifiedAlong call p past) :
    justifiedAlong call (transactional p) past :=
  requestsAlong_transactional (fun _ => trivial) hp

theorem justifiedAlong_issueSetupToken {operation : JString → AccountOperation}
    {employee : Account}
    (h : ∀ token past', past <:+ past' → Justified call past' (operation token)) :
    justifiedAlong call (issueSetupToken P operation employee) past := by
  refine requestsAlong_perform trivial fun token => ?_
  refine requestsAlong_perform trivial fun now => ?_
  refine requestsAlong_perform ?_ fun stored => trivial
  exact h token _ ((List.suffix_cons _ _).trans (List.suffix_cons _ _))

theorem justifiedAlong_issue {authority : Option EmployeeRole} {request : IssueEmployeeRequest}
    (h : ∀ token past', past <:+ past' → Justified call past' (.issue token)) :
    justifiedAlong call (issue P authority request) past :=
  requestsAlong_preAuthorize (justifiedAlong_transactional (justifiedAlong_issueSetupToken h))

theorem justifiedAlong_reissueSetupToken (hcall : call.isBootstrap = false)
    (authority : Option EmployeeRole) (id : Long) :
    justifiedAlong call (reissueSetupToken P authority id) past := by
  refine requestsAlong_preAuthorize (justifiedAlong_transactional ?_)
  refine requestsAlong_perform trivial fun found => ?_
  refine requestsAlong_present fun employee _ => ?_
  split
  · trivial
  · split
    · trivial
    · exact justifiedAlong_issueSetupToken fun _ _ _ => hcall

theorem justifiedAlong_setPassword (hcall : call.isBootstrap = false)
    (request : SetPasswordRequest) : justifiedAlong call (setPassword P request) past := by
  refine justifiedAlong_transactional ?_
  refine requestsAlong_perform trivial fun found => ?_
  refine requestsAlong_present fun id _ => ?_
  refine requestsAlong_perform trivial fun found => ?_
  refine requestsAlong_present fun employee _ => ?_
  split
  · trivial
  · split
    · trivial
    · refine requestsAlong_perform trivial fun now => ?_
      split
      · trivial
      · cases validatePassword request.password with
        | error e => trivial
        | ok _ =>
            refine requestsAlong_perform trivial fun passwordHash => ?_
            exact requestsAlong_perform hcall fun stored => trivial

theorem justifiedAlong_active (hcall : call.isBootstrap = false)
    (authority : Option EmployeeRole) (id : Long) (active : Bool) (actorId : Long) :
    justifiedAlong call (EmployeeService.active authority id active actorId) past := by
  refine requestsAlong_preAuthorize (justifiedAlong_transactional ?_)
  split
  · trivial
  · refine requestsAlong_perform trivial fun found => ?_
    refine requestsAlong_present fun employee _ => ?_
    simp only
    split
    · trivial
    · exact requestsAlong_perform hcall fun stored => trivial

theorem justifiedAlong_bootstrap (authority : Option EmployeeRole) (loginId password : JString) :
    justifiedAlong (.service authority (.bootstrap loginId password) : AccountCall ι)
      (bootstrap loginId password) [] := by
  refine justifiedAlong_transactional ?_
  refine requestsAlong_perform rfl fun row => ?_
  split
  · trivial
  · rename_i hrow
    obtain rfl := not_not.mp hrow
    refine requestsAlong_perform rfl fun count => ?_
    split
    · trivial
    · rename_i hcount
      obtain rfl := not_not.mp hcount
      split
      · trivial
      · rename_i hloginId
        cases hpassword : validatePassword password with
        | error e => trivial
        | ok _ =>
            refine requestsAlong_perform trivial fun passwordHash => ?_
            refine requestsAlong_perform ?_ fun stored => trivial
            exact ⟨authority, loginId, password, passwordHash, rfl, rfl, by simpa using hloginId,
              hpassword⟩

/-- A request creates an account only behind the filter. -/
theorem justifiedAlong_handle (hcall : call.isBootstrap = false) (endpoint : Endpoint)
    {employee : Option Account}
    (hread : employee ≠ none → ReadAccount past) :
    justifiedAlong call (EmployeeController.handle P endpoint employee) past := by
  cases endpoint with
  | me =>
      refine requestsAlong_present fun employee _ => ?_
      exact requestsAlong_bind (requestsAlong_currentEmployee _) fun _ _ _ => trivial
  | password request =>
      show justifiedAlong call (if (!request.isValid) = true then _ else _) past
      split
      · trivial
      · exact requestsAlong_bind (justifiedAlong_setPassword hcall _) fun _ _ _ => trivial
  | issue request =>
      cases employee with
      | none => trivial
      | some employee =>
          obtain ⟨loginId, account, hanswered⟩ := hread (by simp)
          refine requestsAlong_bind (requestsAlong_authorize _) fun employee past' hlater => ?_
          split
          · trivial
          · refine requestsAlong_bind (justifiedAlong_issue fun token past'' hlater' => ?_)
              fun _ _ _ => trivial
            exact ⟨hcall, .inr ⟨loginId, account, hanswered.mono (hlater.trans hlater')⟩⟩
  | reissueSetupToken id =>
      refine requestsAlong_bind (requestsAlong_authorize _) fun employee past _ => ?_
      exact requestsAlong_bind (justifiedAlong_reissueSetupToken hcall _ _) fun _ _ _ => trivial
  | active id active =>
      refine requestsAlong_bind (requestsAlong_authorize _) fun employee past _ => ?_
      refine requestsAlong_bind (requestsAlong_currentEmployee _) fun actor past _ => ?_
      exact requestsAlong_bind (justifiedAlong_active hcall _ _ _ _) fun _ _ _ => trivial

theorem justifiedAlong_http (hcall : call.isBootstrap = false) (session : Option ι)
    (endpoint : Endpoint) :
    justifiedAlong call (EmployeeSessionValidationFilter.doFilterInternal session
      (EmployeeController.handle P endpoint)) [] := by
  cases session with
  | none => exact justifiedAlong_handle hcall endpoint (by simp)
  | some session =>
      refine requestsAlong_perform trivial fun loaded => ?_
      cases loaded with
      | none => exact justifiedAlong_handle hcall endpoint (by simp)
      | some principal =>
          refine requestsAlong_perform trivial fun found => ?_
          split
          · rename_i employee hvalid
            refine justifiedAlong_handle hcall endpoint fun _ => ?_
            obtain ⟨hfound, -⟩ := Option.filter_eq_some_iff.mp hvalid
            exact ⟨principal.loginId, employee, hfound ▸ List.mem_cons_self⟩
          · exact requestsAlong_perform trivial fun _ => trivial

theorem justifiedAlong_login (request : LoginRequest) :
    justifiedAlong call (AccountCall.program P (.login request : AccountCall ι)) [] := by
  show justifiedAlong call (if (!request.isValid) = true then _ else _) []
  split
  · trivial
  · refine requestsAlong_bind (requestsAlong_bind ?_ fun user past _ => ?_) fun _ _ _ => trivial
    · refine requestsAlong_perform trivial fun found => ?_
      refine requestsAlong_present fun employee _ => ?_
      exact requestsAlong_present fun passwordHash _ => trivial
    · obtain ⟨employee, passwordHash⟩ := user
      show justifiedAlong call (if (!employee.active) = true then _ else _) past
      split
      · trivial
      · refine requestsAlong_perform trivial fun matched => ?_
        split
        · trivial
        · refine ⟨trivial, fun answer _ => ?_⟩
          cases answer <;> trivial

theorem justifiedAlong_program (call : AccountCall ι) :
    justifiedAlong call (call.program P) [] := by
  cases call with
  | login request => exact justifiedAlong_login request
  | http session endpoint => exact justifiedAlong_http rfl session endpoint
  | service authority service =>
      cases service with
      | issue request =>
          refine requestsAlong_bind (justifiedAlong_issue fun _ _ _ => ?_) fun _ _ _ => trivial
          exact ⟨rfl, .inl ⟨authority, request, rfl⟩⟩
      | reissueSetupToken id =>
          exact requestsAlong_bind (justifiedAlong_reissueSetupToken rfl _ _) fun _ _ _ => trivial
      | setPassword request =>
          exact requestsAlong_bind (justifiedAlong_setPassword rfl _) fun _ _ _ => trivial
      | active id active actorId =>
          exact requestsAlong_bind (justifiedAlong_active rfl _ _ _ _) fun _ _ _ => trivial
      | bootstrap loginId password =>
          exact requestsAlong_bind (justifiedAlong_bootstrap _ _ _) fun _ _ _ => trivial

end Created

/-! ## Passwords and tokens -/

/-- The password that a call sets. -/
def AccountCall.password? : AccountCall ι → Option SetPasswordRequest
  | .http _ (.password request) | .service _ (.setPassword request) => some request
  | _ => none

/-- The password was set: the last exchange is its commit. -/
def PasswordSet (P : Platform) (request : SetPasswordRequest) (past : AccountTranscript ι) : Prop :=
  ∃ row stored older, past = ⟨.commit (.setPassword request.token) row, .ok stored⟩ :: older ∧
    Writes P older (.setPassword request.token) row

/-- How a call issues a token, and the account that it issues it for if that one is
there already. -/
def AccountCall.issues? : AccountCall ι → Option ((JString → AccountOperation) × Option Long)
  | .http _ (.issue _) | .service _ (.issue _) => some (.issue, none)
  | .http _ (.reissueSetupToken id) | .service _ (.reissueSetupToken id) =>
      some (.reissueSetupToken, some id)
  | _ => none

/-- The token of the response was stored: the last exchange is the commit of its hash. -/
def TokenStored (P : Platform) (operation : JString → AccountOperation) (id : Option Long)
    (response : IssuedEmployee) (past : AccountTranscript ι) : Prop :=
  ∃ employee stored older,
    past = ⟨.commit (operation response.setupToken)
      (employee.invite (hash P response.setupToken) response.expiresAt), .ok stored⟩ :: older ∧
    response.employee = .ofAccount stored ∧
    ∀ id' ∈ id, Answered older (.findByIdForUpdate id') (some employee)

/-- What a program that ends with a result leaves behind. -/
abbrev endsAlong (p : AccountProgram ι α) (post : α → AccountTranscript ι → Prop)
    (past : AccountTranscript ι) : Prop :=
  Program.along (fun _ _ => True) (fun _ _ => True) p
    (fun outcome past => ∀ a, outcome = .ok a → post a past) past

section Ends

variable {past : AccountTranscript ι} {p : AccountProgram ι α} {f : α → AccountProgram ι β}
variable {post : β → AccountTranscript ι → Prop}

theorem endsAlong_throw (e : AccountFailure) :
    endsAlong (Program.throw e : AccountProgram ι β) post past :=
  fun _ hok => absurd hok (by simp)

theorem endsAlong_bind {post' : α → AccountTranscript ι → Prop} (hp : endsAlong p post' past)
    (hf : ∀ a past', post' a past' → endsAlong (f a) post past') :
    endsAlong (p >>= f) post past := by
  rw [endsAlong, Program.along_bind]
  refine Program.along_mono hp fun outcome past' hpost => ?_
  cases outcome with
  | ok a => exact hf a past' (hpost a rfl)
  | error e => exact fun _ hok => absurd hok (by simp)

theorem endsAlong_perform {request : AccountRequest ι} {f : request.Result → AccountProgram ι β}
    (hf : ∀ result, endsAlong (f result) post (⟨request, .ok result⟩ :: past)) :
    endsAlong (perform request >>= f) post past := by
  refine ⟨trivial, fun answer _ => ?_⟩
  cases answer with
  | ok result => exact hf result
  | error e => exact endsAlong_throw e

theorem endsAlong_present {value : Option α} {e : AccountFailure}
    (hf : ∀ a, value = some a → endsAlong (f a) post past) :
    endsAlong (present value e >>= f) post past := by
  cases value with
  | none => exact endsAlong_throw e
  | some a => exact hf a rfl

theorem endsAlong_transactional {p : AccountProgram ι β} (hp : endsAlong p post past) :
    endsAlong (transactional p) post past := by
  unfold transactional
  rw [endsAlong, Program.along_tryCatch]
  refine Program.along_mono hp fun outcome past' hpost => ?_
  cases outcome with
  | ok a => exact hpost
  | error e => exact ⟨trivial, fun _ _ _ hok => absurd hok (by simp)⟩

theorem endsAlong_preAuthorize {authority : Option EmployeeRole} {p : AccountProgram ι β}
    (hp : endsAlong p post past) : endsAlong (do preAuthorize authority; p) post past := by
  unfold preAuthorize
  split
  · exact hp
  · exact endsAlong_throw _

theorem endsAlong_authorize {employee : Option Account} {f : Account → AccountProgram ι β}
    (hf : ∀ employee, endsAlong (f employee) post past) :
    endsAlong (EmployeeController.authorize employee >>= f) post past := by
  unfold EmployeeController.authorize
  split
  · exact endsAlong_throw _
  · split
    · exact hf _
    · exact endsAlong_throw _

/-- Behind the filter a request ends as its chain does. -/
theorem endsAlong_doFilterInternal (session : Option ι)
    {chain : Option Account → AccountProgram ι β}
    (hchain : ∀ employee past, endsAlong (chain employee) post past) :
    endsAlong (EmployeeSessionValidationFilter.doFilterInternal session chain) post past := by
  cases session with
  | none => exact hchain none _
  | some session =>
      refine endsAlong_perform fun loaded => ?_
      cases loaded with
      | none => exact hchain none _
      | some principal =>
          refine endsAlong_perform fun found => ?_
          split
          · exact hchain (some _) _
          · exact endsAlong_perform fun _ => endsAlong_throw _

/-- A password that was set was committed after the checks under the lock. -/
theorem endsAlong_setPassword (request : SetPasswordRequest) :
    endsAlong (setPassword P request) (fun _ => PasswordSet P request) past := by
  refine endsAlong_transactional (endsAlong_perform fun found => ?_)
  refine endsAlong_present fun id hfound => ?_
  subst hfound
  refine endsAlong_perform fun found => endsAlong_present fun employee hfound => ?_
  subst hfound
  split
  · exact endsAlong_throw _
  · rename_i haccepts
    split
    · exact endsAlong_throw _
    · rename_i expires hexpires
      refine endsAlong_perform fun now => ?_
      split
      · exact endsAlong_throw _
      · rename_i hunexpired
        cases validatePassword request.password with
        | error e => exact endsAlong_throw e
        | ok _ =>
            refine endsAlong_perform fun passwordHash => endsAlong_perform fun stored => ?_
            exact fun _ _ => ⟨_, stored, _, rfl, id, employee, expires, now, _, passwordHash, past,
              rfl, by simpa using haccepts, hexpires, not_not.mp hunexpired, rfl⟩

/-- A call that sets a password succeeds only by its commit. -/
theorem endsAlong_program_password (call : AccountCall ι) {request : SetPasswordRequest}
    (hcall : call.password? = some request) :
    endsAlong (call.program P) (fun _ => PasswordSet P request) [] := by
  have hhandle : ∀ (employee : Option Account) (past : AccountTranscript ι),
      endsAlong (EmployeeController.handle P (.password request) employee)
        (fun _ => PasswordSet P request) past := by
    intro employee past
    show endsAlong (if (!request.isValid) = true then _ else _) _ past
    split
    · exact endsAlong_throw _
    · exact endsAlong_bind (endsAlong_setPassword request) fun _ _ hset _ _ => hset
  cases call with
  | login => exact absurd hcall (by simp [AccountCall.password?])
  | http session endpoint =>
      cases endpoint with
      | password =>
          cases hcall
          exact endsAlong_doFilterInternal session hhandle
      | me | issue | reissueSetupToken | active =>
          exact absurd hcall (by simp [AccountCall.password?])
  | service authority service =>
      cases service with
      | setPassword =>
          cases hcall
          exact endsAlong_bind (endsAlong_setPassword request) fun _ _ hset _ _ => hset
      | issue | reissueSetupToken | active | bootstrap =>
          exact absurd hcall (by simp [AccountCall.password?])

/-- A token that is returned was stored just before, with the time at which it expires. -/
theorem endsAlong_issueSetupToken {operation : JString → AccountOperation} {employee : Account}
    {id : Option Long}
    (hfound : ∀ id' ∈ id, Answered past (.findByIdForUpdate id') (some employee)) :
    endsAlong (issueSetupToken P operation employee) (TokenStored P operation id) past := by
  refine endsAlong_perform fun token => endsAlong_perform fun now => ?_
  refine endsAlong_perform fun stored response hresponse => ?_
  cases hresponse
  refine ⟨employee, stored, _, rfl, rfl, fun id' hid => ?_⟩
  exact (hfound id' hid).mono ((List.suffix_cons _ _).trans (List.suffix_cons _ _))

theorem endsAlong_issue (authority : Option EmployeeRole) (request : IssueEmployeeRequest) :
    endsAlong (issue P authority request) (TokenStored P .issue none) past :=
  endsAlong_preAuthorize (endsAlong_transactional (endsAlong_issueSetupToken (by simp)))

theorem endsAlong_reissueSetupToken (authority : Option EmployeeRole) (id : Long) :
    endsAlong (reissueSetupToken P authority id) (TokenStored P .reissueSetupToken (some id))
      past := by
  refine endsAlong_preAuthorize (endsAlong_transactional (endsAlong_perform fun found => ?_))
  refine endsAlong_present fun employee hfound => ?_
  subst hfound
  split
  · exact endsAlong_throw _
  · split
    · exact endsAlong_throw _
    · refine endsAlong_issueSetupToken fun id' hid => ?_
      cases hid
      exact List.mem_cons_self

/-- The response is returned as it is. -/
theorem endsAlong_issued {p : AccountProgram ι IssuedEmployee}
    {post : IssuedEmployee → AccountTranscript ι → Prop} (hp : endsAlong p post past) :
    endsAlong (do
        let response ← p
        return AccountResult.issued response)
      (fun result past => ∃ response, result = .issued response ∧ post response past) past := by
  refine endsAlong_bind hp fun response past' hstored result hresult => ?_
  cases hresult
  exact ⟨response, rfl, hstored⟩

/-- A call that issues a token succeeds only by the commit that stores it. -/
theorem endsAlong_program_issues (call : AccountCall ι)
    {operation : JString → AccountOperation} {id : Option Long}
    (hcall : call.issues? = some (operation, id)) :
    endsAlong (call.program P)
      (fun result past => ∃ response, result = .issued response ∧
        TokenStored P operation id response past) [] := by
  cases call with
  | login => exact absurd hcall (by simp [AccountCall.issues?])
  | http session endpoint =>
      cases endpoint with
      | issue request =>
          cases hcall
          -- the filter, the role and the service stand in the way of the response
          refine endsAlong_doFilterInternal session fun employee past => ?_
          refine endsAlong_authorize fun employee => ?_
          split
          · exact endsAlong_throw _
          · exact endsAlong_issued (endsAlong_issue _ _)
      | reissueSetupToken id =>
          cases hcall
          refine endsAlong_doFilterInternal session fun employee past => ?_
          refine endsAlong_authorize fun employee => ?_
          exact endsAlong_issued (endsAlong_reissueSetupToken _ _)
      | me | password | active => exact absurd hcall (by simp [AccountCall.issues?])
  | service authority service =>
      cases service with
      | issue request =>
          cases hcall
          exact endsAlong_issued (endsAlong_issue _ _)
      | reissueSetupToken id =>
          cases hcall
          exact endsAlong_issued (endsAlong_reissueSetupToken _ _)
      | setPassword | active | bootstrap => exact absurd hcall (by simp [AccountCall.issues?])

end Ends

/-! ## The first administrator -/

/-- No transaction of the call was told that it has committed. -/
def Uncommitted (past : AccountTranscript ι) : Prop :=
  ∀ operation row stored, ¬ Answered past (.commit operation row) stored

/-- A bootstrap succeeds by its commit, and fails without one. -/
def BootstrapEnds (outcome : Except AccountFailure α) (past : AccountTranscript ι) : Prop :=
  match outcome with
  | .ok _ => ∃ row stored, Answered past (.commit .bootstrap row) stored
  | .error _ => Uncommitted past

abbrev bootstrapAlong (p : AccountProgram ι α) (past : AccountTranscript ι) : Prop :=
  Program.along (fun _ _ => True) (fun _ _ => True) p BootstrapEnds past

section Bootstrap

variable {past : AccountTranscript ι}

theorem Uncommitted.nil : Uncommitted ([] : AccountTranscript ι) :=
  fun _ _ _ hanswered => absurd hanswered List.not_mem_nil

theorem Uncommitted.cons (h : Uncommitted past) {request : AccountRequest ι}
    {answer : request.Answer} (hanswer : request.isLast = false ∨ ∀ result, answer ≠ .ok result) :
    Uncommitted (⟨request, answer⟩ :: past) := by
  intro operation row stored hanswered
  rcases List.mem_cons.mp hanswered with heq | hbefore
  · cases heq
    rcases hanswer with hrequest | herror
    · exact absurd hrequest (by simp [isLast])
    · exact herror stored rfl
  · exact h operation row stored hbefore

theorem bootstrapAlong_perform {request : AccountRequest ι}
    {f : request.Result → AccountProgram ι α} (hpast : Uncommitted past)
    (hf : ∀ result, bootstrapAlong (f result) (⟨request, .ok result⟩ :: past)) :
    bootstrapAlong (perform request >>= f) past := by
  refine ⟨trivial, fun answer _ => ?_⟩
  cases answer with
  | ok result => exact hf result
  | error e => exact hpast.cons (.inr fun _ => by simp)

theorem bootstrapAlong_transactional {p : AccountProgram ι α} (hp : bootstrapAlong p past) :
    bootstrapAlong (transactional p) past := by
  unfold transactional
  rw [bootstrapAlong, Program.along_tryCatch]
  refine Program.along_mono hp fun outcome past' hends => ?_
  cases outcome with
  | ok a => exact hends
  | error e =>
      refine ⟨trivial, fun answer _ operation row stored hanswered => ?_⟩
      rcases List.mem_cons.mp hanswered with heq | hbefore
      · exact absurd heq (by simp)
      · exact hends operation row stored hbefore

theorem bootstrapAlong_bootstrap (loginId password : JString) :
    bootstrapAlong (bootstrap loginId password : AccountProgram ι Unit) [] := by
  refine bootstrapAlong_transactional (bootstrapAlong_perform .nil fun row => ?_)
  have hlocked : Uncommitted [(⟨.lockBootstrap, .ok row⟩ : AccountExchange ι)] :=
    Uncommitted.nil.cons (.inl rfl)
  split
  · exact hlocked
  · refine bootstrapAlong_perform hlocked fun count => ?_
    have hcounted : Uncommitted [(⟨.count, .ok count⟩ : AccountExchange ι),
        ⟨.lockBootstrap, .ok row⟩] := hlocked.cons (.inl rfl)
    split
    · exact hcounted
    · split
      · exact hcounted
      · cases validatePassword password with
        | error e => exact hcounted
        | ok _ =>
            refine bootstrapAlong_perform hcounted fun passwordHash => ?_
            refine bootstrapAlong_perform (hcounted.cons (.inl rfl)) fun stored => ?_
            exact ⟨_, stored, List.mem_cons_self⟩

theorem bootstrapAlong_program {call : AccountCall ι} (hcall : call.isBootstrap = true) :
    bootstrapAlong (call.program P) [] := by
  cases call with
  | login | http => exact absurd hcall (by simp [AccountCall.isBootstrap])
  | service authority service =>
      cases service with
      | bootstrap loginId password =>
          show bootstrapAlong (bootstrap loginId password >>= _) []
          rw [bootstrapAlong, Program.along_bind]
          refine Program.along_mono (bootstrapAlong_bootstrap loginId password) ?_
          intro outcome past hends
          cases outcome with
          | ok _ => exact hends
          | error e => exact hends
      | issue | reissueSetupToken | setPassword | active =>
          exact absurd hcall (by simp [AccountCall.isBootstrap])

end Bootstrap

end ReceiptReview
