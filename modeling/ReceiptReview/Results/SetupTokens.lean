import Mathlib.Data.List.Pairwise
import ReceiptReview.Concurrent.AccountScript

/-!
# Setup tokens

The account of a token is looked up before its row is locked.  Until the lock is
held the token may be replaced, the password may be set and the account may be
deactivated, so all of it is checked again.  The deactivation takes no lock; the
version of the row stands between it and the password.

The hash that is stored for an account always is that of the token that was issued
for it last (`AccountHistory.issued_of_token`), and what a call returns as a token was
issued by its commit (`AccountsRun.tokenCommitted`).
-/

namespace ReceiptReview

open Java Store EmployeeService AccountTranscript

variable {P : Platform} {ι : Type} {history earlier earlier' : List (AccountCommit ι)}
variable {commit commit' : AccountCommit ι} {id : Long} {account : Account} {token : JString}

/-! ## The tokens of a history -/

def issuedTokens (history : List (AccountCommit ι)) : List JString :=
  history.filterMap (·.operation.issued?)

/-- The token that was issued last for an account. -/
def lastIssued (id : Long) (history : List (AccountCommit ι)) : Option JString :=
  history.findSome? fun commit => if commit.row.id = id then commit.operation.issued? else none

theorem lastIssued_cons :
    lastIssued id (commit :: history) =
      (if commit.row.id = id then commit.operation.issued? else none).or
        (lastIssued id history) := by
  unfold lastIssued
  rw [List.findSome?_cons]
  split <;> simp_all

theorem exists_of_lastIssued (h : lastIssued id history = some token) :
    ∃ commit ∈ history, commit.row.id = id ∧ commit.operation.issued? = some token := by
  obtain ⟨commit, hmem, hissued⟩ := List.exists_of_findSome?_eq_some h
  split at hissued
  · rename_i hid
    exact ⟨commit, hmem, hid, hissued⟩
  · exact absurd hissued (by simp)

theorem mem_issuedTokens_of_lastIssued (h : lastIssued id history = some token) :
    token ∈ issuedTokens history := by
  obtain ⟨commit, hmem, -, hissued⟩ := exists_of_lastIssued h
  exact List.mem_filterMap.mpr ⟨commit, hmem, hissued⟩

/-- Tokens that are distinct were each issued by one commit. -/
theorem eq_of_issued (hdistinct : (issuedTokens history).Nodup) (hmem : commit ∈ history)
    (hmem' : commit' ∈ history) (hissued : commit.operation.issued? = some token)
    (hissued' : commit'.operation.issued? = some token) : commit = commit' := by
  have : Std.Symm fun a b : AccountCommit ι => ∀ t, a.operation.issued? = some t →
      ∀ t', b.operation.issued? = some t' → t ≠ t' :=
    ⟨fun _ _ hne t ht t' ht' => (hne t' ht' t ht).symm⟩
  have hpairwise := List.pairwise_filterMap.mp hdistinct
  by_contra hne
  exact hpairwise.forall hmem hmem' hne token hissued token hissued' rfl

/-- Two accounts were not issued the same token. -/
theorem eq_of_lastIssued (hdistinct : (issuedTokens history).Nodup) (hupto : earlier <:+ history)
    (hupto' : earlier' <:+ history) {id' : Long} (h : lastIssued id earlier = some token)
    (h' : lastIssued id' earlier' = some token) : id = id' := by
  obtain ⟨commit, hmem, hid, hissued⟩ := exists_of_lastIssued h
  obtain ⟨commit', hmem', hid', hissued'⟩ := exists_of_lastIssued h'
  have hsame := eq_of_issued hdistinct (hupto.subset hmem) (hupto'.subset hmem') hissued hissued'
  calc id
      = commit.row.id := hid.symm
    _ = commit'.row.id := by rw [hsame]
    _ = id' := hid'

/-- A stored token is the one that was issued last for its account. -/
theorem AccountHistory.issued_of_token (h : AccountHistory P history)
    (hstored : (accountsAt history).find? id = some account) {tokenHash : JString}
    (htoken : account.setupTokenHash = some tokenHash) :
    ∃ token, lastIssued id history = some token ∧ tokenHash = hash P token := by
  induction history generalizing id account with
  | nil => exact absurd hstored (by simp [accountsAt])
  | cons commit history ih =>
      obtain ⟨hhistory, hcommit⟩ := h.cases_cons
      rw [lastIssued_cons]
      rcases h.row_or_stored hstored with ⟨rfl, rfl⟩ | ⟨hbefore, hid⟩
      · rw [if_pos rfl]
        obtain ⟨hcreated, -⟩ | ⟨before, changed, hbefore, hstep, hrow, -⟩ := hcommit
        · generalize commit.operation = operation at hcreated
          generalize commit.row = row at hcreated htoken
          cases hcreated with
          | issued =>
              cases htoken
              exact ⟨_, rfl, rfl⟩
          | bootstrapped => exact absurd htoken (by simp [Account.setPassword])
        · have hid : commit.row.id = changed.id := by rw [hrow]
          have hchanged : changed.setupTokenHash = some tokenHash := by
            rw [← htoken, hrow]
          rw [hid]
          generalize commit.operation = operation at hstep
          cases hstep with
          | reissued =>
              cases hchanged
              exact ⟨_, rfl, rfl⟩
          | passwordSet => exact absurd hchanged (by simp [Account.setPassword])
          | activated =>
              -- the account keeps its token
              exact ih hhistory hbefore hchanged
      · rw [if_neg (Ne.symm hid)]
        exact ih hhistory hbefore htoken

/-! ## The password of an account -/

/-- The commit gives a password to an account that had none. -/
def AccountCommit.SetsPassword (commit : AccountCommit ι) (history : List (AccountCommit ι))
    (id : Long) : Prop :=
  ∃ before after, (accountsAt history).find? id = some before ∧
    commit.accounts.find? id = some after ∧ before.passwordHash = none ∧ after.passwordHash ≠ none

/-- A password that is there stays as it is. -/
theorem AccountHistory.passwordHash_kept (h : AccountHistory P history)
    (hupto : earlier <:+ history) (hstored : (accountsAt earlier).find? id = some account)
    (hset : account.passwordHash ≠ none) :
    ∃ later, (accountsAt history).find? id = some later ∧
      later.passwordHash = account.passwordHash := by
  obtain ⟨later, hlater, hcontinues⟩ := h.continues hupto hstored
  exact ⟨later, hlater, hcontinues.passwordHash hset⟩

/-- After an account has got a password, no commit gives it one. -/
theorem AccountCommit.SetsPassword.not_later (h : AccountHistory P history)
    (hset : commit.SetsPassword earlier id) (hupto : commit :: earlier <:+ history) :
    ¬ commit'.SetsPassword history id := by
  rintro ⟨before, -, hbefore, -, hnone, -⟩
  obtain ⟨-, after, -, hafter, -, hsome⟩ := hset
  obtain ⟨later, hlater, hkept⟩ := h.passwordHash_kept hupto hafter hsome
  cases hlater.symm.trans hbefore
  exact hsome (hkept.symm.trans hnone)

/-- Two commits of a history are the same one, or one is made after the other. -/
theorem commits_cases (hupto : commit :: earlier <:+ history)
    (hupto' : commit' :: earlier' <:+ history) :
    commit :: earlier = commit' :: earlier' ∨ commit :: earlier <:+ earlier' ∨
      commit' :: earlier' <:+ earlier := by
  rcases Nat.le_total (commit :: earlier).length (commit' :: earlier').length with hle | hle
  · rcases List.suffix_cons_iff.mp (List.suffix_of_suffix_length_le hupto hupto' hle) with
      heq | hbefore
    · exact .inl heq
    · exact .inr (.inl hbefore)
  · rcases List.suffix_cons_iff.mp (List.suffix_of_suffix_length_le hupto' hupto hle) with
      heq | hbefore
    · exact .inl heq.symm
    · exact .inr (.inr hbefore)

theorem AccountHistory.setsPassword_once (h : AccountHistory P history)
    (hupto : commit :: earlier <:+ history) (hset : commit.SetsPassword earlier id)
    (hupto' : commit' :: earlier' <:+ history) (hset' : commit'.SetsPassword earlier' id) :
    commit :: earlier = commit' :: earlier' := by
  rcases commits_cases hupto hupto' with heq | hbefore | hbefore
  · exact heq
  · have hbefore' := h.suffix ((List.suffix_cons ..).trans hupto')
    exact absurd hset' (hset.not_later hbefore' hbefore)
  · have hbefore' := h.suffix ((List.suffix_cons ..).trans hupto)
    exact absurd hset (hset'.not_later hbefore' hbefore)

/-- A password is set for the account whose last token it was, and which has none. -/
theorem AccountHistory.setPassword_cases (h : AccountHistory P (commit :: history))
    (hoperation : commit.operation = .setPassword token) :
    ∃ issued, lastIssued commit.row.id history = some issued ∧ hash P token = hash P issued ∧
      commit.SetsPassword history commit.row.id := by
  obtain ⟨hhistory, ⟨hcreated, -⟩ | ⟨before, changed, hbefore, hstep, hrow, hfound⟩⟩ := h.cases_cons
  · rw [hoperation] at hcreated
    cases hcreated
  · have hid : commit.row.id = changed.id := by rw [hrow]
    rw [hoperation] at hstep
    cases hstep with
    | passwordSet haccepts =>
        obtain ⟨htoken, -, hnone⟩ := Account.acceptsToken_iff.mp haccepts
        rw [hid]
        obtain ⟨issued, hlast, hhash⟩ := hhistory.issued_of_token hbefore htoken
        refine ⟨issued, hlast, hhash, before, commit.row, hbefore, ?_, hnone, ?_⟩
        · rw [hfound, if_pos rfl]
        · rw [hrow]
          simp [Account.setPassword]

/-- Only the password of a setup is given to an account that had none. -/
theorem AccountHistory.operation_of_setsPassword (h : AccountHistory P (commit :: history))
    (hset : commit.SetsPassword history id) : ∃ token, commit.operation = .setPassword token := by
  obtain ⟨before, after, hbefore, hafter, hnone, hsome⟩ := hset
  rcases h.kept_or_stepped hbefore with hkept | ⟨changed, hstep, hrow, hfound⟩
  · cases hkept.symm.trans hafter
    exact absurd hnone hsome
  · cases hfound.symm.trans hafter
    rw [hrow] at hsome
    generalize commit.operation = operation at hstep
    cases hstep with
    | reissued | activated => exact absurd hnone hsome
    | passwordSet => exact ⟨_, rfl⟩

/-- A token sets a password once, if no other token was issued or has its hash. -/
theorem AccountHistory.setPassword_once (h : AccountHistory P history)
    (hdistinct : (issuedTokens history).Nodup)
    (hcollision : ∀ issued ∈ issuedTokens history, ∀ issued' ∈ issuedTokens history,
      hash P issued = hash P issued' → issued = issued')
    (hupto : commit :: earlier <:+ history) (hoperation : commit.operation = .setPassword token)
    (hupto' : commit' :: earlier' <:+ history)
    (hoperation' : commit'.operation = .setPassword token) :
    commit :: earlier = commit' :: earlier' := by
  obtain ⟨issued, hlast, hhash, hset⟩ := (h.suffix hupto).setPassword_cases hoperation
  obtain ⟨issued', hlast', hhash', hset'⟩ := (h.suffix hupto').setPassword_cases hoperation'
  have hbefore : earlier <:+ history := (List.suffix_cons ..).trans hupto
  have hbefore' : earlier' <:+ history := (List.suffix_cons ..).trans hupto'
  have hmem : issued ∈ issuedTokens history :=
    (hbefore.filterMap _).subset (mem_issuedTokens_of_lastIssued hlast)
  have hmem' : issued' ∈ issuedTokens history :=
    (hbefore'.filterMap _).subset (mem_issuedTokens_of_lastIssued hlast')
  obtain rfl : issued = issued' := hcollision _ hmem _ hmem' (hhash.symm.trans hhash')
  have hid : commit.row.id = commit'.row.id :=
    eq_of_lastIssued hdistinct hbefore hbefore' hlast hlast'
  rw [← hid] at hset'
  exact h.setsPassword_once hupto hset hupto' hset'

/-- A row that is stored at two moments is stored between them. -/
theorem AccountHistory.stored_between (h : AccountHistory P history)
    {between : List (AccountCommit ι)} (hafter : earlier <:+ between) (hupto : between <:+ history)
    (hstored : (accountsAt earlier).find? id = some account)
    (hstill : (accountsAt history).find? id = some account) :
    (accountsAt between).find? id = some account := by
  obtain ⟨row, hrow, hcase⟩ := (h.suffix hupto).precedes hafter id account hstored
  obtain ⟨row', hrow', hcase'⟩ := h.precedes hupto id row hrow
  cases hrow'.symm.trans hstill
  rcases hcase with rfl | hlt
  · exact hrow
  · rcases hcase' with rfl | hlt'
    · exact hrow
    · exact absurd (hlt.trans hlt') (Nat.lt_irrefl _)

/-! ## Calls -/

variable [DecidableEq ι] {calls : ι → AccountCall ι} {pool locked committing : AccountsPool ι}
variable {i j : ι} {request : SetPasswordRequest}

/-- No token that was issued shares its hash with another one, issued or presented. -/
def TokensCollisionFree (P : Platform) (calls : ι → AccountCall ι)
    (history : List (AccountCommit ι)) : Prop :=
  ∀ issued ∈ issuedTokens history, ∀ token,
    (token ∈ issuedTokens history ∨
      ∃ i request, (calls i).password? = some request ∧ request.token = token) →
    hash P issued = hash P token → issued = token

/-- The call has been told that the password is set. -/
def PasswordCommitted (pool : AccountsPool ι) (i : ι) (token : JString) : Prop :=
  ∃ row stored, Answered (pool.past i) (.commit (.setPassword token) row) stored

/-- What the call finds from the moment at which it has locked the row of the account
to the moment at which it commits: all the time it holds the lock, this is the row,
and the token is the one that was issued last for it. -/
structure SetUnderLock (P : Platform) (calls : ι → AccountCall ι) (i : ι) (token : JString)
    (locked committing : AccountsPool ι) (account : Account) (expires now : Instant) : Prop where
  run : AccountsRun P calls locked
  later : Relation.ReflTransGen (Pool.Step (accountRules P calls)) locked committing
  read : Answered (locked.past i) (.findByIdForUpdate account.id) (some account)
  clock : ∃ password passwordHash, committing.past i =
    ⟨.encode password, .ok passwordHash⟩ :: ⟨.now, .ok now⟩ :: locked.past i
  held : ∀ between, Relation.ReflTransGen (Pool.Step (accountRules P calls)) locked between →
    Relation.ReflTransGen (Pool.Step (accountRules P calls)) between committing →
    (.row account.id, i) ∈ between.shared.locks ∧
      between.shared.accounts.find? account.id = some account ∧
      lastIssued account.id between.shared.history = some token
  active : account.active = true
  passwordHash : account.passwordHash = none
  setupExpiresAt : account.setupExpiresAt = some expires
  unexpired : now < expires

/-- The token of the response is the one that was issued last once this commit was
made: its author has stored the hash of it and the time at which it expires, in the
account that the response is about. -/
structure TokenCommitted (P : Platform) (pool : AccountsPool ι) (i : ι)
    (operation : JString → AccountOperation) (id : Option Long) (response : IssuedEmployee)
    (commit : AccountCommit ι) (earlier : List (AccountCommit ι)) : Prop where
  upto : commit :: earlier <:+ pool.shared.history
  author : commit.author = i
  operation : commit.operation = operation response.setupToken
  last : lastIssued commit.row.id (commit :: earlier) = some response.setupToken
  setupTokenHash : commit.row.setupTokenHash = some (hash P response.setupToken)
  setupExpiresAt : commit.row.setupExpiresAt = some response.expiresAt
  employee : response.employee = .ofAccount commit.row
  id : ∀ id' ∈ id, commit.row.id = id'

/-- A call that ends with a result has set its password. -/
theorem AccountsRun.passwordCommitted (h : AccountsRun P calls pool)
    (hcall : (calls i).password? = some request) {result : AccountResult}
    (hended : pool.Ended i (.ok result)) : PasswordCommitted pool i request.token := by
  obtain ⟨row, stored, older, hpast, -⟩ := Pool.Run.outcome h (fun _ _ _ _ _ _ => trivial)
    (endsAlong_program_password (calls i) hcall) hended result rfl
  exact ⟨row, stored, hpast ▸ List.mem_cons_self⟩

omit [DecidableEq ι] in
/-- The operation of a call that issues a token. -/
theorem AccountCall.issued_of_issues {call : AccountCall ι}
    {operation : JString → AccountOperation} {id : Option Long}
    (hcall : call.issues? = some (operation, id)) (token : JString) :
    (operation token).issued? = some token ∧ (id ≠ none → (operation token).inserts = false) := by
  unfold AccountCall.issues? at hcall
  split at hcall <;> cases hcall <;> simp [AccountOperation.issued?, AccountOperation.inserts]

/-- A call that issues a token and ends with a result has stored the token it returns. -/
theorem AccountsRun.tokenCommitted (h : AccountsRun P calls pool)
    {operation : JString → AccountOperation} {id : Option Long}
    (hcall : (calls i).issues? = some (operation, id)) {result : AccountResult}
    (hended : pool.Ended i (.ok result)) :
    ∃ response commit earlier, result = .issued response ∧
      TokenCommitted P pool i operation id response commit earlier := by
  obtain ⟨response, rfl, employee, stored, older, hpast, hemployee, hfound⟩ :=
    Pool.Run.outcome h (fun _ _ _ _ _ _ => trivial) (endsAlong_program_issues (calls i) hcall)
      hended result rfl
  have hlast : (⟨.commit (operation response.setupToken)
      (employee.invite (hash P response.setupToken) response.expiresAt), .ok stored⟩ :
        AccountExchange ι) :: older <:+ pool.past i := by
    rewrite [hpast]
    exact List.suffix_rfl
  obtain ⟨committing, next, accounts', -, -, -, hstores, hupto⟩ := h.committed hlast
  obtain ⟨hissued, hinserts⟩ := AccountCall.issued_of_issues hcall response.setupToken
  obtain ⟨storedId, version, rfl, hid⟩ := hstores.eq_stored
  refine ⟨response, _, _, rfl, hupto, rfl, rfl, ?_, rfl, rfl, hemployee, fun id' hid' => ?_⟩
  · rw [lastIssued_cons, if_pos rfl, hissued]
    rfl
  · -- the row that is written back was read under the id that the call asks for
    have hanswered : Answered (pool.past i) (.findByIdForUpdate id') (some employee) := by
      rw [hpast]
      exact List.mem_cons_of_mem _ (hfound id' hid')
    obtain ⟨moment, -, hstored⟩ := h.found (.inr hanswered)
    calc storedId
        = employee.id := hid (hinserts (by rw [hid']; simp))
      _ = id' := Table.key_of_find? hstored

omit [DecidableEq ι] in
/-- After the lock only the clock and the encoder are asked. -/
theorem isLast_of_between {exchange : AccountExchange ι} {past older : AccountTranscript ι}
    {now : Instant} {password passwordHash : JString}
    (hpast : exchange :: older <:+ (⟨.encode password, .ok passwordHash⟩ : AccountExchange ι) ::
      ⟨.now, .ok now⟩ :: past) (hafter : past <:+ older) : exchange.request.isLast = false := by
  rcases List.suffix_cons_iff.mp hpast with heq | hpast
  · rw [(List.cons.inj heq).1]
    rfl
  · rcases List.suffix_cons_iff.mp hpast with heq | hpast
    · rw [(List.cons.inj heq).1]
      rfl
    · have hle := hpast.length_le
      have hle' := hafter.length_le
      rw [List.length_cons] at hle
      omega

/-- The lock that a call has before it asks the clock is held until it commits. -/
theorem AccountsPool.held {between : AccountsPool ι} {past : AccountTranscript ι} {now : Instant}
    {password passwordHash : JString} {lock : AccountLock}
    {program : AccountProgram ι AccountResult} (hlock : (lock, i) ∈ locked.shared.locks)
    (hthread : committing.threads i = some ⟨past, some program⟩)
    (hclock : past = ⟨.encode password, .ok passwordHash⟩ :: ⟨.now, .ok now⟩ :: locked.past i)
    (hafter : Relation.ReflTransGen (Pool.Step (accountRules P calls)) locked between)
    (hbefore : Relation.ReflTransGen (Pool.Step (accountRules P calls)) between committing) :
    (lock, i) ∈ between.shared.locks := by
  refine (keeps_locks P calls).later hafter hlock (Pool.alive_before hbefore hthread)
    fun exchange older hpast hlater => ?_
  have hsuffix := hpast.trans (Pool.past_suffix_later hbefore i)
  rw [Pool.past_of_thread hthread, hclock] at hsuffix
  exact isLast_of_between hsuffix hlater

/-- The token of a stored account is the one that the call presents. -/
theorem AccountsRun.lastIssued (h : AccountsRun P calls pool)
    (hcollision : TokensCollisionFree P calls history) (hcall : (calls i).password? = some request)
    (hupto : pool.shared.history <:+ history)
    (hstored : (accountsAt pool.shared.history).find? id = some account)
    (htoken : account.setupTokenHash = some (hash P request.token)) :
    lastIssued id pool.shared.history = some request.token := by
  obtain ⟨issued, hlast, hhash⟩ := h.history.issued_of_token hstored htoken
  have hissued : issued ∈ issuedTokens history :=
    (hupto.filterMap _).subset (mem_issuedTokens_of_lastIssued hlast)
  rw [hlast, hcollision issued hissued request.token (.inr ⟨i, request, hcall, rfl⟩) hhash.symm]

/-- A password that is committed was set under the lock of its row. -/
theorem AccountsRun.setUnderLock (h : AccountsRun P calls pool)
    (hcollision : TokensCollisionFree P calls pool.shared.history)
    (hcall : (calls i).password? = some request)
    (hcommitted : PasswordCommitted pool i request.token) :
    ∃ locked committing account expires now commit,
      SetUnderLock P calls i request.token locked committing account expires now ∧
      commit :: committing.shared.history <:+ pool.shared.history ∧ commit.author = i ∧
      commit.operation = .setPassword request.token ∧
      commit.SetsPassword committing.shared.history account.id := by
  obtain ⟨row, stored, hanswered⟩ := hcommitted
  obtain ⟨older, hpast, hallows⟩ := h.allowed_past hanswered
  obtain ⟨id, account, expires, now, password, passwordHash, lookup, rfl, haccepts, hexpires,
    hnow, rfl⟩ := hallows.2.2 _ _ rfl
  obtain ⟨htoken, hactive, hnone⟩ := Account.acceptsToken_iff.mp haccepts
  obtain ⟨committing, next, accounts', hcommitting, hthread, hlater, ⟨-, hflush, hstored⟩, hupto⟩ :=
    h.committed hpast
  -- the row was locked before
  have hread : (⟨.findByIdForUpdate id, .ok (some account)⟩ : AccountExchange ι) ::
      ⟨.findIdBySetupTokenHash (hash P request.token), .ok (some id)⟩ :: lookup <:+
        committing.past i := by
    rw [Pool.past_of_thread hthread]
    exact (List.suffix_cons _ _).trans (List.suffix_cons _ _)
  obtain ⟨locked, hlocked, hlockedLater, hlockedPast, hlock, hfound⟩ :=
    AccountsRun.locked hcommitting hread
  have hid : account.id = id := Table.key_of_find? hfound
  subst hid
  -- and is still the same
  have hstill : (accountsAt committing.shared.history).find? account.id = some account :=
    (AccountsRun.history hcommitting).stored_of_read
      (AccountsRun.suffix_later hlocked hlockedLater) hfound (.passwordSet haccepts) hflush
  have hstoredBetween : ∀ between : AccountsPool ι,
      Relation.ReflTransGen (Pool.Step (accountRules P calls)) locked between →
      Relation.ReflTransGen (Pool.Step (accountRules P calls)) between committing →
      (accountsAt between.shared.history).find? account.id = some account := by
    intro between hafter hbefore
    exact (AccountsRun.history hcommitting).stored_between
      (AccountsRun.suffix_later hlocked hafter)
      (AccountsRun.suffix_later (Pool.Run.later hlocked hafter) hbefore) hfound hstill
  refine ⟨locked, committing, account, expires, now,
    ⟨i, .setPassword request.token, stored, accounts'⟩, ?_, hupto, rfl, rfl, ?_⟩
  · refine
      { run := hlocked
        later := hlockedLater
        read := hlockedPast ▸ List.mem_cons_self
        clock := ⟨password, passwordHash, ?_⟩
        held := fun between hafter hbefore => ⟨?_, ?_, ?_⟩
        active := hactive
        passwordHash := hnone
        setupExpiresAt := hexpires
        unexpired := hnow }
    · rw [Pool.past_of_thread hthread, hlockedPast]
    · exact AccountsPool.held hlock hthread (by rw [hlockedPast]) hafter hbefore
    · exact hstoredBetween between hafter hbefore
    · have hbetween : AccountsRun P calls between := Pool.Run.later hlocked hafter
      exact hbetween.lastIssued hcollision hcall
        (hbetween.suffix_later (hbefore.trans hlater)) (hstoredBetween between hafter hbefore)
        htoken
  · refine ⟨account, stored, hstill, hstored, hnone, ?_⟩
    rw [find?_flush_singleton hflush hstill, if_pos rfl] at hstored
    cases hstored
    simp [Account.setPassword]

/-- Two commits of a password with the same token are the same commit. -/
theorem AccountsRun.commit_once (h : AccountsRun P calls pool)
    (hdistinct : (issuedTokens pool.shared.history).Nodup)
    (hcollision : TokensCollisionFree P calls pool.shared.history)
    (hupto : commit :: earlier <:+ pool.shared.history)
    (hupto' : commit' :: earlier' <:+ pool.shared.history)
    (hoperation : commit.operation = .setPassword token)
    (hoperation' : commit'.operation = .setPassword token) :
    commit :: earlier = commit' :: earlier' :=
  h.history.setPassword_once hdistinct
    (fun issued hissued issued' hissued' => hcollision issued hissued issued' (.inl hissued'))
    hupto hoperation hupto' hoperation'

/-- Two calls that set a password with the same token are the same call. -/
theorem AccountsRun.call_once (h : AccountsRun P calls pool)
    (hdistinct : (issuedTokens pool.shared.history).Nodup)
    (hcollision : TokensCollisionFree P calls pool.shared.history)
    (hcommitted : PasswordCommitted pool i token) (hcommitted' : PasswordCommitted pool j token) :
    i = j := by
  obtain ⟨row, stored, hanswered⟩ := hcommitted
  obtain ⟨row', stored', hanswered'⟩ := hcommitted'
  obtain ⟨older, hpast, -⟩ := h.allowed_past hanswered
  obtain ⟨older', hpast', -⟩ := h.allowed_past hanswered'
  obtain ⟨_, _, accounts', -, -, -, -, hupto⟩ := h.committed hpast
  obtain ⟨_, _, accounts'', -, -, -, -, hupto'⟩ := h.committed hpast'
  have hsame := h.commit_once hdistinct hcollision hupto hupto' rfl rfl
  exact congrArg AccountCommit.author (List.cons.inj hsame).1

/-- Setup tokens are used once and superseded:

* a call that issues a token and ends with a result has stored that token for the
  account, as the one that is issued last;
* no token sets a password twice, and a call that ends with a result has set it;
* the password is set with the token that was issued last for the account, before it
  expires, and the account is active as long as the call holds the lock of its row;
* an account is given a password at most once, by such a call, and keeps it. -/
structure TokensUsedOnce (P : Platform) (calls : ι → AccountCall ι) (pool : AccountsPool ι) :
    Prop where
  issued : ∀ i operation id result, (calls i).issues? = some (operation, id) →
    pool.Ended i (.ok result) → ∃ response commit earlier, result = .issued response ∧
      TokenCommitted P pool i operation id response commit earlier
  commitOnce : ∀ commit commit' earlier earlier' token, commit :: earlier <:+ pool.shared.history →
    commit' :: earlier' <:+ pool.shared.history → commit.operation = .setPassword token →
    commit'.operation = .setPassword token → commit :: earlier = commit' :: earlier'
  callOnce : ∀ i j token, PasswordCommitted pool i token → PasswordCommitted pool j token → i = j
  committed : ∀ i request result, (calls i).password? = some request → pool.Ended i (.ok result) →
    PasswordCommitted pool i request.token
  underLock : ∀ i request, (calls i).password? = some request →
    PasswordCommitted pool i request.token → ∃ locked committing account expires now commit,
      SetUnderLock P calls i request.token locked committing account expires now ∧
      commit :: committing.shared.history <:+ pool.shared.history ∧ commit.author = i ∧
      commit.operation = .setPassword request.token ∧
      commit.SetsPassword committing.shared.history account.id
  passwordOnce : ∀ id commit commit' earlier earlier', commit :: earlier <:+ pool.shared.history →
    commit' :: earlier' <:+ pool.shared.history → commit.SetsPassword earlier id →
    commit'.SetsPassword earlier' id → commit :: earlier = commit' :: earlier'
  bySetup : ∀ id commit earlier, commit :: earlier <:+ pool.shared.history →
    commit.SetsPassword earlier id → ∃ token, commit.operation = .setPassword token
  kept : ∀ id account earlier later, earlier <:+ later → later <:+ pool.shared.history →
    (accountsAt earlier).find? id = some account → account.passwordHash ≠ none →
    ∃ account', (accountsAt later).find? id = some account' ∧
      account'.passwordHash = account.passwordHash

/-- If the tokens that are issued are distinct and free of collisions, they are used
once and superseded, whatever the calls do. -/
theorem setupTokens_used_once (h : AccountsRun P calls pool)
    (hdistinct : (issuedTokens pool.shared.history).Nodup)
    (hcollision : TokensCollisionFree P calls pool.shared.history) :
    TokensUsedOnce P calls pool where
  issued _ _ _ _ hcall hended := h.tokenCommitted hcall hended
  commitOnce _ _ _ _ _ hupto hupto' hoperation hoperation' :=
    h.commit_once hdistinct hcollision hupto hupto' hoperation hoperation'
  callOnce _ _ _ hcommitted hcommitted' := h.call_once hdistinct hcollision hcommitted hcommitted'
  committed _ _ _ hcall hended := h.passwordCommitted hcall hended
  underLock _ _ hcall hcommitted := h.setUnderLock hcollision hcall hcommitted
  passwordOnce _ _ _ _ _ hupto hupto' hset hset' :=
    h.history.setsPassword_once hupto hset hupto' hset'
  bySetup _ _ _ hupto hset := (h.history.suffix hupto).operation_of_setsPassword hset
  kept _ _ _ _ hlater hupto hstored hset :=
    (h.history.suffix hupto).passwordHash_kept hlater hstored hset

namespace Sample

/-- The first administrator issues an account, and then its token again. -/
def reissuedCalls : ℕ → AccountCall ℕ
  | 0 => .service none (.bootstrap (.ofString "first") password)
  | 1 => .login ⟨.ofString "first", password⟩
  | 2 => .http (some 1) (.issue ⟨.ofString "second", .ofString "second", .employee⟩)
  | 3 => .http (some 1) (.reissueSetupToken 2)
  | 4 => .http none (.password ⟨.ofString "token", password⟩)
  | _ => .http none (.password ⟨.ofString "token-2", password⟩)

/-- The environment of the call that issues the token again. -/
def reissueEnvironment : AccountEnvironment :=
  { accountEnvironment 2 with token := .ofString "token-2" }

/-- The first token is looked up before it is replaced, and its row locked after that. -/
def tokenReissued : List (Pool.Move ℕ AccountEnvironment) :=
  begins 0 4 1 ++ begins 1 3 1 ++ begins 2 5 2 ++ begins 4 1 2 ++
    .start 3 :: List.replicate 6 (.serve 3 reissueEnvironment) ++
    continues 4 2 2 ++ begins 5 5 2

theorem token_of_reissuedCalls {i : ℕ} {request : SetPasswordRequest}
    (hcall : (reissuedCalls i).password? = some request) :
    request.token = .ofString "token" ∨ request.token = .ofString "token-2" := by
  unfold reissuedCalls at hcall
  split at hcall <;> cases hcall
  · exact .inl rfl
  · exact .inr rfl

theorem collisionFree_tokenReissued :
    TokensCollisionFree platform reissuedCalls
      (accountsAfter platform reissuedCalls tokenReissued).shared.history := by
  have hissued : issuedTokens
      (accountsAfter platform reissuedCalls tokenReissued).shared.history =
        [.ofString "token-2", .ofString "token"] := by decide +kernel
  have hhashes : ∀ issued ∈ [JString.ofString "token-2", .ofString "token"],
      ∀ token ∈ [JString.ofString "token-2", .ofString "token"],
        hash platform issued = hash platform token → issued = token := by decide +kernel
  intro issued hmem token hpresented
  rw [hissued] at hmem hpresented
  apply hhashes issued hmem token
  rcases hpresented with hmem' | ⟨i, request, hcall, rfl⟩
  · exact hmem'
  · rcases token_of_reissuedCalls hcall with htoken | htoken
    · rw [htoken]
      simp
    · rw [htoken]
      simp

end Sample

open Sample in
/-- The token that was replaced is refused, and the one in its place sets the password. -/
theorem tokenReissued_used :
    ∃ (pool locked committing : AccountsPool ℕ) (response : IssuedEmployee)
      (commit : AccountCommit ℕ) (earlier : List (AccountCommit ℕ)) (account : Account)
      (expires now : Instant),
      AccountsRun platform reissuedCalls pool ∧ pool.Ended 4 (.error invalidToken) ∧
      TokenCommitted platform pool 3 .reissueSetupToken (some 2) response commit earlier ∧
      pool.Ended 5 (.ok .noContent) ∧
      SetUnderLock platform reissuedCalls 5 (.ofString "token-2") locked committing account expires
        now := by
  have hrun : AccountsRun platform reissuedCalls
      (accountsAfter platform reissuedCalls tokenReissued) := accountsRun_accountsAfter _
  have honce := setupTokens_used_once hrun (by decide +kernel) collisionFree_tokenReissued
  have hreturns : (accountsAfter platform reissuedCalls tokenReissued).returns 3
      (fun _ => true) = true := by decide +kernel
  obtain ⟨result, hreissued, -⟩ := Pool.ended_of_returns hreturns
  have hrefused : (accountsAfter platform reissuedCalls tokenReissued).Ended 4
      (.error invalidToken) := Pool.ended_of_outcome? (by decide +kernel)
  have hended : (accountsAfter platform reissuedCalls tokenReissued).Ended 5
      (.ok .noContent) := Pool.ended_of_outcome? (by decide +kernel)
  obtain ⟨response, commit, earlier, -, hcommitted⟩ := honce.issued 3 _ _ _ rfl hreissued
  obtain ⟨locked, committing, account, expires, now, -, hlock, -⟩ :=
    honce.underLock 5 _ rfl (honce.committed 5 _ _ rfl hended)
  exact ⟨_, locked, committing, response, commit, earlier, account, expires, now, hrun, hrefused,
    hcommitted, hended, hlock⟩

end ReceiptReview
