import ReceiptReview.Concurrent.AccountScript

/-!
# Revocation of sessions

A session holds the principal that was made of the account when its login read it,
however long ago.  Neither the password that was checked later nor the session that
was saved later makes it any newer, so what counts is whether the account was
deactivated since it was read: then its session version has grown, and no
reactivation takes it back.
-/

namespace ReceiptReview

open Java Store AccountTranscript

variable {P : Platform} {ι : Type} {history earlier : List (AccountCommit ι)}
variable {account : Account} {loginId : JString} {principal : EmployeePrincipal}

/-! ## The two checks -/

/-- Both checks refuse the principal. -/
structure Revoked (accounts : Table Account) (principal : EmployeePrincipal) : Prop where
  filter : EmployeeSessionValidationFilter.validated principal
    (EmployeeRepository.findByLoginId accounts principal.loginId) = none
  service : CurrentEmployeeService.getCurrentEmployee (Accounts.employees accounts)
    ⟨some principal, none⟩ = .error (.insufficientAuthentication "로그인이 필요합니다.")

/-- Both checks find the account of the principal. -/
structure Valid (accounts : Table Account) (principal : EmployeePrincipal) (current : Account) :
    Prop where
  filter : EmployeeSessionValidationFilter.validated principal
    (EmployeeRepository.findByLoginId accounts principal.loginId) = some current
  service : CurrentEmployeeService.getCurrentEmployee (Accounts.employees accounts)
    ⟨some principal, none⟩ = .ok current.toEmployee

theorem isValidFor_iff {employee : Employee} :
    principal.isValidFor employee = true ↔ principal.employeeId = employee.id ∧
      principal.sessionVersion = employee.sessionVersion ∧ employee.active = true ∧
      employee.passwordHash.isSome = true := by
  simp [EmployeePrincipal.isValidFor, and_assoc]

/-- The service finds the account that the filter finds. -/
theorem findByLoginId_employees (accounts : Table Account) (loginId : JString) :
    CurrentEmployeeService.findByLoginId (Accounts.employees accounts) loginId =
      (EmployeeRepository.findByLoginId accounts loginId).map Account.toEmployee := by
  unfold CurrentEmployeeService.findByLoginId EmployeeRepository.findByLoginId
  exact List.find?_map ..

theorem revoked_of_invalid {accounts : Table Account} {current : Account}
    (hfound : EmployeeRepository.findByLoginId accounts principal.loginId = some current)
    (hinvalid : principal.isValidFor current.toEmployee = false) : Revoked accounts principal where
  filter := by
    rw [hfound]
    simp [EmployeeSessionValidationFilter.validated, hinvalid]
  service := by
    simp [CurrentEmployeeService.getCurrentEmployee, CurrentEmployeeService.loadEmployee,
      findByLoginId_employees, hfound, hinvalid]

theorem valid_of_isValidFor {accounts : Table Account} {current : Account}
    (hfound : EmployeeRepository.findByLoginId accounts principal.loginId = some current)
    (hvalid : principal.isValidFor current.toEmployee = true) :
    Valid accounts principal current where
  filter := by
    rw [hfound]
    simp [EmployeeSessionValidationFilter.validated, hvalid]
  service := by
    simp [CurrentEmployeeService.getCurrentEmployee, CurrentEmployeeService.loadEmployee,
      findByLoginId_employees, hfound, hvalid]

/-! ## Histories -/

/-- The principal was made of the account, which was active and had a password. -/
structure LoadedFrom (earlier : List (AccountCommit ι)) (account : Account)
    (principal : EmployeePrincipal) : Prop where
  stored : (accountsAt earlier).find? account.id = some account
  active : account.active = true
  passwordHash : account.passwordHash ≠ none
  principal : principal = .ofAccount account

/-- The account of a principal is found later, and the principal is valid for it
unless it was deactivated in between. -/
theorem AccountHistory.isValidFor_iff (h : AccountHistory P history)
    (hearlier : earlier <:+ history) (hloaded : LoadedFrom earlier account principal) :
    ∃ current, EmployeeRepository.findByLoginId (accountsAt history) principal.loginId =
        some current ∧
      (principal.isValidFor current.toEmployee = true ↔
        ¬ DeactivatedSince account.id earlier history) := by
  obtain ⟨hstored, hactive, hpassword, rfl⟩ := hloaded
  obtain ⟨current, hcurrent, hcontinues⟩ := h.continues hearlier hstored
  have hfound := h.findByLoginId hcurrent
  rw [hcontinues.loginId] at hfound
  refine ⟨current, hfound, ?_⟩
  have hkept : current.passwordHash.isSome = true := by
    rw [hcontinues.passwordHash hpassword]
    exact Option.isSome_iff_ne_none.mpr hpassword
  rw [isValidFor_iff]
  rcases h.revoked_or_kept hearlier hstored hcurrent with
    ⟨hsince, hgrown⟩ | ⟨hnot, hversion, hstill⟩
  · constructor
    · intro hvalid
      exact absurd hvalid.2.1 (Nat.ne_of_lt hgrown)
    · exact fun hnot => absurd hsince hnot
  · exact ⟨fun _ => hnot, fun _ => ⟨hcontinues.id.symm, hversion.symm, hstill hactive, hkept⟩⟩

theorem AccountHistory.revoked (h : AccountHistory P history) (hearlier : earlier <:+ history)
    (hloaded : LoadedFrom earlier account principal)
    (hsince : DeactivatedSince account.id earlier history) :
    Revoked (accountsAt history) principal := by
  obtain ⟨current, hfound, hiff⟩ := h.isValidFor_iff hearlier hloaded
  refine revoked_of_invalid hfound ?_
  rw [Bool.eq_false_iff, ne_eq, hiff]
  exact not_not.mpr hsince

theorem AccountHistory.valid (h : AccountHistory P history) (hearlier : earlier <:+ history)
    (hloaded : LoadedFrom earlier account principal)
    (hnot : ¬ DeactivatedSince account.id earlier history) :
    ∃ current, Valid (accountsAt history) principal current := by
  obtain ⟨current, hfound, hiff⟩ := h.isValidFor_iff hearlier hloaded
  exact ⟨current, valid_of_isValidFor hfound (hiff.mpr hnot)⟩

/-! ## Calls -/

variable [DecidableEq ι] {calls : ι → AccountCall ι} {pool : AccountsPool ι} {i session : ι}

/-- An account that a call has read was stored in the history that is remembered for it. -/
theorem AccountsRun.loadedFrom (h : AccountsRun P calls pool)
    (hauthenticated : Authenticated (pool.past session) principal) :
    ∃ account, LoadedFrom (pool.shared.readAt session) account principal := by
  obtain ⟨loginId, employee, hread, hactive, hpassword, rfl⟩ := hauthenticated
  obtain ⟨-, hfound⟩ := h.readAt hread
  exact ⟨employee, Table.find?_of_mem (List.mem_of_find?_eq_some hfound.symm), hactive, hpassword,
    rfl⟩

/-- A request loads one session, and first of all. -/
theorem AccountsRun.load_unique (h : AccountsRun P calls pool) {session' : ι}
    {found found' : Option EmployeePrincipal}
    (hload : Answered (pool.past i) (.loadContext session) found)
    (hload' : Answered (pool.past i) (.loadContext session') found') :
    (⟨.loadContext session, .ok found⟩ : AccountExchange ι) =
      ⟨.loadContext session', .ok found'⟩ := by
  obtain ⟨older, hsuffix, -, rfl⟩ := h.allowed_past hload
  obtain ⟨older', hsuffix', -, rfl⟩ := h.allowed_past hload'
  have heq := List.suffix_of_suffix_length_le hsuffix hsuffix' (Nat.le_refl _)
  exact (List.cons.inj (heq.eq_of_length rfl)).1

/-- The filter lets a request pass only if the account of its session was not
deactivated since the login has read it. -/
theorem AccountsRun.not_deactivated_of_passed (h : AccountsRun P calls pool)
    (hload : Answered (pool.past i) (.loadContext session) (some principal))
    (hloaded : LoadedFrom (pool.shared.readAt session) account principal)
    (hpassed : Passed (pool.past i) session) :
    ¬ DeactivatedSince account.id (pool.shared.readAt session) (pool.shared.readAt i) := by
  intro hsince
  rcases hpassed with hnone | ⟨principal', found, employee, hload', hread, hvalid⟩
  · exact absurd (h.load_unique hload hnone) (by simp)
  · cases h.load_unique hload hload'
    obtain ⟨hupto, hfound⟩ := h.readAt hread
    have hrevoked := (h.history.suffix hupto).revoked (h.readAt_load hload hread) hloaded hsince
    rw [hfound, hrevoked.filter] at hvalid
    exact absurd hvalid (by simp)

/-- The filter refuses a session only if its account was deactivated since the login
has read it. -/
theorem AccountsRun.deactivated_of_refused (h : AccountsRun P calls pool)
    (hload : Answered (pool.past i) (.loadContext session) (some principal))
    (hloaded : LoadedFrom (pool.shared.readAt session) account principal)
    (hrefused : Refused (pool.past i) session) :
    DeactivatedSince account.id (pool.shared.readAt session) (pool.shared.readAt i) := by
  by_contra hnot
  obtain ⟨principal', found, hload', hread, hinvalid⟩ := hrefused
  cases h.load_unique hload hload'
  obtain ⟨hupto, hfound⟩ := h.readAt hread
  obtain ⟨current, hvalid⟩ :=
    (h.history.suffix hupto).valid (h.readAt_load hload hread) hloaded hnot
  rw [hfound, hvalid.filter] at hinvalid
  exact absurd hinvalid (by simp)

/-- Both checks refuse the principal after a deactivation, and accept it until then. -/
structure CheckedAt (earlier moment : List (AccountCommit ι)) (account : Account)
    (principal : EmployeePrincipal) : Prop where
  revoked : DeactivatedSince account.id earlier moment → Revoked (accountsAt moment) principal
  valid : ¬ DeactivatedSince account.id earlier moment →
    ∃ current, Valid (accountsAt moment) principal current

/-- What the filter makes of a request: after a deactivation nothing is requested on
its behalf and it has no result, and before it the session is not refused. -/
structure FilteredRequest (pool : AccountsPool ι) (i session : ι) (account : Account) : Prop where
  later : pool.shared.readAt session <:+ pool.shared.readAt i
  silent : DeactivatedSince account.id (pool.shared.readAt session) (pool.shared.readAt i) →
    ∀ exchange ∈ pool.past i, exchange.request.isService = false
  unanswered : DeactivatedSince account.id (pool.shared.readAt session) (pool.shared.readAt i) →
    ∀ result, ¬ pool.Ended i (.ok result)
  accepted : ¬ DeactivatedSince account.id (pool.shared.readAt session) (pool.shared.readAt i) →
    ∀ exchange ∈ pool.past i, exchange.request ≠ .invalidate session

/-- A session is refused at every moment after its account was deactivated, however
often it is activated again, and is valid until then.  Both checks decide so, from
the moment at which the login has read the account, and so does the filter for each
request with the session. -/
structure SessionsRevoked (pool : AccountsPool ι) : Prop where
  session : ∀ session principal, pool.shared.sessions session = some principal →
    ∃ account, LoadedFrom (pool.shared.readAt session) account principal ∧
      ∀ moment, pool.shared.readAt session <:+ moment → moment <:+ pool.shared.history →
        CheckedAt (pool.shared.readAt session) moment account principal
  request : ∀ i session principal found,
    Answered (pool.past i) (.loadContext session) (some principal) →
    Answered (pool.past i) (.findByLoginId principal.loginId) found →
    ∃ account, LoadedFrom (pool.shared.readAt session) account principal ∧
      FilteredRequest pool i session account

/-- Sessions are revoked for good, whatever the calls do. -/
theorem sessions_revoked (h : AccountsRun P calls pool) : SessionsRevoked pool := by
  constructor
  · intro session principal hsession
    obtain ⟨account, hloaded⟩ := h.loadedFrom (h.authenticated_session hsession)
    refine ⟨account, hloaded, fun moment hafter hupto => ⟨?_, ?_⟩⟩
    · exact (h.history.suffix hupto).revoked hafter hloaded
    · exact (h.history.suffix hupto).valid hafter hloaded
  · intro i session principal found hload hread
    obtain ⟨account, hloaded⟩ := h.loadedFrom (h.authenticated_load hload)
    obtain ⟨-, -, hsession, -⟩ := h.allowed_past hload
    refine ⟨account, hloaded, h.readAt_load hload hread, fun hsince => ?_, fun hsince => ?_, ?_⟩
    · intro exchange hmem
      by_contra hservice
      obtain ⟨older, holder, hallows⟩ := h.allowed_past hmem
      have hpassed : Passed older session := hallows.passed (by simpa using hservice) hsession
      exact h.not_deactivated_of_passed hload hloaded
        (hpassed.mono ((List.suffix_cons ..).trans holder)) hsince
    · intro result hended
      exact h.not_deactivated_of_passed hload hloaded
        (h.ends hended session result hsession rfl) hsince
    · intro hnot exchange hmem hinvalidates
      obtain ⟨older, holder, hallows⟩ := h.allowed_past hmem
      rw [hinvalidates] at hallows
      exact hnot (h.deactivated_of_refused hload hloaded
        (hallows.2.mono ((List.suffix_cons ..).trans holder)))

namespace Sample

/-- The second administrator has logged in, is deactivated and activated again, and
asks who it is. -/
def revokedPool : AccountsPool ℕ :=
  accountsAfter platform accountCalls
    (administratorsLogIn ++ begins 5 4 2 ++ begins 7 4 2 ++ begins 8 2 2)

theorem revokedPool_readAt :
    revokedPool.shared.readAt 4 = revokedPool.shared.history.drop 2 := rfl

/-- The older of the last two commits is the deactivation. -/
theorem revokedPool_deactivated :
    DeactivatedSince 2 (revokedPool.shared.readAt 4) revokedPool.shared.history :=
  ⟨_, _, List.drop_suffix 1 revokedPool.shared.history, List.suffix_rfl, _, _, rfl, rfl, rfl, rfl⟩

end Sample

open Sample in
/-- The session of the second administrator is refused, although it is active. -/
theorem revokedPool_revoked :
    ∃ principal account, revokedPool.shared.sessions 4 = some principal ∧
      LoadedFrom (revokedPool.shared.readAt 4) account principal ∧
      ((accountsAt revokedPool.shared.history).find? 2).any (·.active) = true ∧
      Revoked (accountsAt revokedPool.shared.history) principal := by
  obtain ⟨principal, hsession, hid⟩ : ∃ principal,
      revokedPool.shared.sessions 4 = some principal ∧ principal.employeeId = 2 := ⟨_, rfl, rfl⟩
  obtain ⟨account, hloaded, hmoments⟩ :=
    (sessions_revoked (accountsRun_accountsAfter _)).session 4 principal hsession
  have haccount : account.id = 2 := by
    rw [← hid, hloaded.principal]
    rfl
  have hsince := revokedPool_deactivated
  rw [← haccount] at hsince
  exact ⟨principal, account, hsession, hloaded, by decide +kernel,
    (hmoments _ (revokedPool_readAt ▸ List.drop_suffix 2 _) List.suffix_rfl).revoked hsince⟩

end ReceiptReview
