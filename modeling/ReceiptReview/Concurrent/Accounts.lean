import Mathlib.Logic.Function.Basic
import ReceiptReview.Concurrent.AccountPaths
import ReceiptReview.Lifecycle.Accounts
import ReceiptReview.Program.Locks

/-!
# Any number of account calls beside each other

Logins, requests and calls of the service, on any number of servers.  A query reads
the committed table as it is.  `findByIdForUpdate` waits for the row and locks it
until its transaction ends; a commit that writes a row waits for it too, and fails
if the version of the row has moved on.  A commit may take effect although its
caller is told that it has failed, a call may fail at any request and may die at any
moment, and a session may expire.

The state remembers what each call has committed, and for each call the history
that it has read its account in.
-/

namespace ReceiptReview

open Java Store AccountTranscript

/-- The rows that transactions lock. -/
inductive AccountLock
  | bootstrap
  | row (id : Long)
  deriving DecidableEq, Repr

structure AccountsState (ι : Type) where
  history : List (AccountCommit ι)
  locks : List (AccountLock × ι)
  sessions : ι → Option EmployeePrincipal
  readAt : ι → List (AccountCommit ι)

/-- How a transaction stores the row that it writes. -/
def AccountOperation.Stores (operation : AccountOperation) (accounts : Table Account)
    (row stored : Account) (accounts' : Table Account) : Prop :=
  Admits accounts stored ∧
    if operation.inserts then
      (∃ id, stored = { row with id }) ∧ accounts.insert stored = some accounts'
    else
      accounts.flush [row] = some accounts' ∧ accounts'.find? row.id = some stored

/-- What is stored is the row that was written, with its version and, if it is new,
with its id. -/
theorem AccountOperation.Stores.eq_stored {operation : AccountOperation}
    {accounts accounts' : Table Account} {row stored : Account}
    (h : operation.Stores accounts row stored accounts') :
    ∃ id version, stored = { row with id, version } ∧
      (operation.inserts = false → id = row.id) := by
  obtain ⟨-, hstores⟩ := h
  split at hstores
  · rename_i hinserts
    obtain ⟨⟨id, rfl⟩, -⟩ := hstores
    exact ⟨id, row.version, rfl, fun hnot => absurd (hinserts.symm.trans hnot) (by simp)⟩
  · obtain ⟨hflush, hstored⟩ := hstores
    cases hbefore : accounts.find? row.id with
    | none =>
        rw [Table.find?_flush hflush, hbefore] at hstored
        exact absurd hstored (by simp)
    | some before =>
        rw [find?_flush_singleton hflush hbefore, if_pos rfl] at hstored
        exact ⟨row.id, before.version + 1, (Option.some.inj hstored).symm, fun _ => rfl⟩

namespace AccountsState

variable {ι : Type}

/-- No account, no session. -/
def start : AccountsState ι where
  history := []
  locks := []
  sessions _ := none
  readAt _ := []

def accounts (s : AccountsState ι) : Table Account := accountsAt s.history

/-- Nobody else holds the lock. -/
def Free (s : AccountsState ι) (i : ι) (lock : AccountLock) : Prop :=
  ∀ holder ∈ s.locks, holder.1 = lock → holder.2 = i

def acquire (s : AccountsState ι) (i : ι) (lock : AccountLock) : AccountsState ι :=
  { s with locks := (lock, i) :: s.locks }

variable [DecidableEq ι]

/-- The transaction of the call has ended. -/
def leave (s : AccountsState ι) (i : ι) : AccountsState ι :=
  { s with locks := s.locks.filter (·.2 ≠ i) }

def save (s : AccountsState ι) (i : ι) (principal : EmployeePrincipal) : AccountsState ι :=
  { s with sessions := Function.update s.sessions i (some principal) }

def expire (s : AccountsState ι) (session : ι) : AccountsState ι :=
  { s with sessions := Function.update s.sessions session none }

/-- The call has read an account. -/
def read (s : AccountsState ι) (i : ι) : AccountsState ι :=
  { s with readAt := Function.update s.readAt i s.history }

def add (s : AccountsState ι) (commit : AccountCommit ι) : AccountsState ι :=
  { s with history := commit :: s.history }

/-- A transaction commits. -/
def Commits (i : ι) (s : AccountsState ι) (operation : AccountOperation) (row stored : Account)
    (s' : AccountsState ι) : Prop :=
  (operation.inserts = false → s.Free i (.row row.id)) ∧
    ∃ accounts', operation.Stores s.accounts row stored accounts' ∧
      s' = (s.add ⟨i, operation, stored, accounts'⟩).leave i

/-- A request of a call is answered. -/
def Serves (i : ι) (s : AccountsState ι) (request : AccountRequest ι) (answer : request.Answer)
    (s' : AccountsState ι) : Prop :=
  match request, answer with
  | .loadContext session, .ok found => found = s.sessions session ∧ s' = s
  | .saveContext principal, .ok _ => s' = s.save i principal
  | .invalidate session, .ok _ => s' = s.expire session
  | .findByLoginId loginId, .ok found =>
      found = EmployeeRepository.findByLoginId s.accounts loginId ∧ s' = s.read i
  | .findById id, .ok found => found = s.accounts.find? id ∧ s' = s
  | .findByIdForUpdate id, .ok found =>
      s.Free i (.row id) ∧ found = s.accounts.find? id ∧ s' = s.acquire i (.row id)
  | .findIdBySetupTokenHash hash, .ok found =>
      found = EmployeeRepository.findIdBySetupTokenHash s.accounts hash ∧ s' = s
  | .lockBootstrap, .ok _ => s.Free i .bootstrap ∧ s' = s.acquire i .bootstrap
  | .count, .ok count => count = s.accounts.rows.length ∧ s' = s
  | .commit operation row, .ok stored => s.Commits i operation row stored s'
  | .commit operation row, .error _ => s' = s ∨ ∃ stored, s.Commits i operation row stored s'
  | .rollback, .ok _ => s' = s.leave i
  | _, _ => s' = s

end AccountsState

variable (P : Platform) {ι : Type} [DecidableEq ι]

def accountRules (calls : ι → AccountCall ι) :
    PoolRules ι (AccountsState ι) (AccountRequest ι) AccountRequest.Answer AccountFailure
      AccountResult where
  program i := (calls i).program P
  starts _ s s' := s' = s
  serves := AccountsState.Serves
  dies i s s' := s' = s.leave i
  others s s' := ∃ session, s' = s.expire session

abbrev AccountsPool (ι : Type) : Type :=
  Pool ι (AccountsState ι) (AccountRequest ι) AccountRequest.Answer AccountFailure AccountResult

abbrev AccountsRun (calls : ι → AccountCall ι) (pool : AccountsPool ι) : Prop :=
  Pool.Run (accountRules P calls) .start pool

variable {P} {calls : ι → AccountCall ι} {pool pool' : AccountsPool ι}
variable {s s' : AccountsState ι}

/-- A call requests only what its transcript allows. -/
theorem AccountsRun.allowed (h : AccountsRun P calls pool) {i : ι} {past : AccountTranscript ι}
    {request : AccountRequest ι}
    {next : request.Answer → AccountProgram ι AccountResult}
    (hthread : pool.threads i = some ⟨past, some (.call request next)⟩) :
    AccountAllows P (calls i) past request :=
  Pool.Run.allowed h (fun _ _ _ _ _ _ => trivial) (along_program (calls i)) hthread

theorem AccountsRun.allowed_past (h : AccountsRun P calls pool) {i : ι}
    {exchange : AccountExchange ι} (hmem : exchange ∈ pool.past i) :
    ∃ older, exchange :: older <:+ pool.past i ∧
      AccountAllows P (calls i) older exchange.request :=
  Pool.Run.allowed_past h (fun _ _ _ _ _ _ => trivial) (along_program (calls i)) hmem

theorem AccountsRun.ends (h : AccountsRun P calls pool) {i : ι}
    {outcome : Except AccountFailure AccountResult} (hended : pool.Ended i outcome) :
    AccountEnds (calls i) outcome (pool.past i) :=
  Pool.Run.outcome h (fun _ _ _ _ _ _ => trivial) (along_program (calls i)) hended

/-! ## Steps of the shared state -/

namespace AccountsState

/-- Nothing was committed, read or saved; sessions may have ended. -/
structure Quiet (s s' : AccountsState ι) : Prop where
  history : s'.history = s.history
  readAt : s'.readAt = s.readAt
  sessions : ∀ session principal, s'.sessions session = some principal →
    s.sessions session = some principal

omit [DecidableEq ι] in
theorem Quiet.refl (s : AccountsState ι) : s.Quiet s :=
  ⟨rfl, rfl, fun _ _ hsession => hsession⟩

theorem quiet_leave (s : AccountsState ι) (i : ι) : s.Quiet (s.leave i) :=
  ⟨rfl, rfl, fun _ _ hsession => hsession⟩

omit [DecidableEq ι] in
theorem quiet_acquire (s : AccountsState ι) (i : ι) (lock : AccountLock) :
    s.Quiet (s.acquire i lock) :=
  ⟨rfl, rfl, fun _ _ hsession => hsession⟩

theorem quiet_expire (s : AccountsState ι) (expired : ι) : s.Quiet (s.expire expired) := by
  refine ⟨rfl, rfl, fun session principal hsession => ?_⟩
  by_cases heq : session = expired
  · subst heq
    exact absurd hsession (by simp [expire])
  · calc s.sessions session
        = (s.expire expired).sessions session := (Function.update_of_ne heq ..).symm
      _ = some principal := hsession

theorem holds_leave {i j : ι} {lock : AccountLock} (hlock : (lock, i) ∈ s.locks) (hij : i ≠ j) :
    (lock, i) ∈ (s.leave j).locks :=
  List.mem_filter.mpr ⟨hlock, by simpa using hij⟩

/-- What the answer to a request does to the state.  Locks are held until a
transaction of their holder ends. -/
inductive Effect (i : ι) (s : AccountsState ι) : AccountRequest ι → AccountsState ι → Prop
  | quiet {request : AccountRequest ι} {s' : AccountsState ι} : s.Quiet s' →
      (∀ j lock, (j = i → request.isLast = false) → (lock, j) ∈ s.locks → (lock, j) ∈ s'.locks) →
      Effect i s request s'
  | read (loginId : JString) : Effect i s (.findByLoginId loginId) (s.read i)
  | saved (principal : EmployeePrincipal) : Effect i s (.saveContext principal) (s.save i principal)
  | committed {operation : AccountOperation} {row stored : Account} {s' : AccountsState ι} :
      s.Commits i operation row stored s' → Effect i s (.commit operation row) s'

theorem Effect.same {i : ι} {request : AccountRequest ι} : Effect i s request s :=
  .quiet (.refl s) fun _ _ _ hlock => hlock

theorem Effect.acquire {i : ι} {request : AccountRequest ι} (lock : AccountLock) :
    Effect i s request (s.acquire i lock) :=
  .quiet (quiet_acquire ..) fun _ _ _ hlock => List.mem_cons_of_mem _ hlock

theorem Serves.effect {i : ι} {request : AccountRequest ι} {answer : request.Answer}
    (h : s.Serves i request answer s') : Effect i s request s' := by
  cases request with
  | loadContext | findById | findIdBySetupTokenHash | count =>
      -- a query without a lock changes nothing
      cases answer with
      | ok found =>
          obtain ⟨-, rfl⟩ := h
          exact .same
      | error e =>
          obtain rfl : s' = s := h
          exact .same
  | findByLoginId loginId =>
      -- the account of a login: the history that it is read in is remembered
      cases answer with
      | ok found =>
          obtain ⟨-, rfl⟩ := h
          exact .read loginId
      | error e =>
          obtain rfl : s' = s := h
          exact .same
  | findByIdForUpdate id =>
      -- the row is locked until the transaction of the call ends
      cases answer with
      | ok found =>
          obtain ⟨-, -, rfl⟩ := h
          exact .acquire (.row id)
      | error e =>
          obtain rfl : s' = s := h
          exact .same
  | lockBootstrap =>
      cases answer with
      | ok found =>
          obtain ⟨-, rfl⟩ := h
          exact .acquire .bootstrap
      | error e =>
          obtain rfl : s' = s := h
          exact .same
  | saveContext principal =>
      cases answer with
      | ok _ =>
          obtain rfl : s' = s.save i principal := h
          exact .saved principal
      | error e =>
          obtain rfl : s' = s := h
          exact .same
  | invalidate session =>
      cases answer with
      | ok _ =>
          obtain rfl : s' = s.expire session := h
          exact .quiet (quiet_expire ..) fun _ _ _ hlock => hlock
      | error e =>
          obtain rfl : s' = s := h
          exact .same
  | rollback =>
      -- a rollback gives up the locks of its own call and no others
      cases answer with
      | ok _ =>
          obtain rfl : s' = s.leave i := h
          refine .quiet (quiet_leave ..) fun j lock hopen hlock => holds_leave hlock ?_
          exact fun hji => absurd (hopen hji) (by simp [AccountRequest.isLast])
      | error e =>
          obtain rfl : s' = s := h
          exact .same
  | commit operation row =>
      -- a commit may take effect although its caller is told that it has failed
      cases answer with
      | ok stored => exact .committed h
      | error e =>
          rcases h with rfl | ⟨stored, hcommits⟩
          · exact .same
          · exact .committed hcommits
  | now | nextToken | matchesHash | encode =>
      cases answer with
      | ok _ | error _ =>
          obtain rfl : s' = s := h
          exact .same

/-- A lock is held until a transaction of its holder ends. -/
theorem Serves.holds {i j : ι} {request : AccountRequest ι} {answer : request.Answer}
    {lock : AccountLock} (h : s.Serves j request answer s') (hlock : (lock, i) ∈ s.locks)
    (hopen : i = j → request.isLast = false) : (lock, i) ∈ s'.locks := by
  cases h.effect with
  | quiet _ hholds => exact hholds i lock hopen hlock
  | read | saved => exact hlock
  | committed hcommits =>
      obtain ⟨-, accounts', -, rfl⟩ := hcommits
      exact holds_leave hlock fun hij => absurd (hopen hij) (by simp [AccountRequest.isLast])

end AccountsState

/-- What a step does: nobody is answered, or one call is. -/
inductive AccountsStep (P : Platform) (calls : ι → AccountCall ι) (pool pool' : AccountsPool ι) :
    Prop
  | quiet : pool.shared.Quiet pool'.shared → (∀ i, pool'.past i = pool.past i) →
      AccountsStep P calls pool pool'
  | served (i : ι) (request : AccountRequest ι) (answer : request.Answer) :
      AccountAllows P (calls i) (pool.past i) request →
      pool.shared.Serves i request answer pool'.shared →
      pool'.past i = ⟨request, answer⟩ :: pool.past i →
      (∀ j, j ≠ i → pool'.past j = pool.past j) → AccountsStep P calls pool pool'

theorem AccountsRun.step_cases (h : AccountsRun P calls pool)
    (hstep : Pool.Step (accountRules P calls) pool pool') : AccountsStep P calls pool pool' := by
  rcases hstep.past_cases with ⟨hsame, ⟨session, hexpired⟩ | ⟨i, hstarts | hdies⟩⟩ |
    ⟨i, request, answer, next, hthread, hserves, hpast, hothers⟩
  · exact .quiet (hexpired ▸ AccountsState.quiet_expire ..) hsame
  · exact .quiet (Eq.symm hstarts ▸ AccountsState.Quiet.refl _) hsame
  · exact .quiet (Eq.symm hdies ▸ AccountsState.quiet_leave ..) hsame
  · exact .served i request answer (h.allowed hthread) hserves hpast hothers

omit [DecidableEq ι] in
/-- An answered request of a thread that has been served. -/
theorem answered_cons_cases {past : AccountTranscript ι} {exchange : AccountExchange ι}
    {request : AccountRequest ι} {result : request.Result}
    (h : Answered (exchange :: past) request result) :
    exchange = ⟨request, .ok result⟩ ∨ Answered past request result := by
  rcases List.mem_cons.mp h with heq | hmem
  · exact .inl heq.symm
  · exact .inr hmem

/-- Only a commit changes the history. -/
theorem AccountsState.Serves.history_cases {i : ι} {request : AccountRequest ι}
    {answer : request.Answer} (h : s.Serves i request answer s') :
    s'.history = s.history ∨ ∃ operation row stored, request = .commit operation row ∧
      s.Commits i operation row stored s' := by
  cases h.effect with
  | quiet hquiet => exact .inl hquiet.history
  | read | saved => exact .inl rfl
  | committed hcommits => exact .inr ⟨_, _, _, rfl, hcommits⟩

/-- A step adds at most one commit to the history. -/
theorem AccountsState.history_cases_of_moves (h : (accountRules P calls).Moves s s') :
    s'.history = s.history ∨ ∃ commit, s'.history = commit :: s.history := by
  rcases h with ⟨session, rfl⟩ | ⟨i, hstarts | hdies | ⟨request, answer, hserves⟩⟩
  · exact .inl rfl
  · cases hstarts
    exact .inl rfl
  · cases hdies
    exact .inl rfl
  · rcases Serves.history_cases hserves with hsame | ⟨_, _, _, -, -, accounts', -, rfl⟩
    · exact .inl hsame
    · exact .inr ⟨_, rfl⟩

theorem AccountsState.Serves.suffix {i : ι} {request : AccountRequest ι} {answer : request.Answer}
    (h : s.Serves i request answer s') : s.history <:+ s'.history := by
  rcases h.history_cases with hsame | ⟨_, _, _, -, -, accounts', -, rfl⟩
  · rewrite [hsame]
    exact List.suffix_rfl
  · exact List.suffix_cons ..

/-- The history grows. -/
theorem AccountsStep.suffix (h : AccountsStep P calls pool pool') :
    pool.shared.history <:+ pool'.shared.history := by
  cases h with
  | quiet hquiet =>
      rewrite [hquiet.history]
      exact List.suffix_rfl
  | served i request answer _ hserves => exact hserves.suffix

theorem AccountsStep.answered {i : ι} (h : AccountsStep P calls pool pool')
    {request : AccountRequest ι} {result : request.Result}
    (hanswered : Answered (pool.past i) request result) :
    Answered (pool'.past i) request result := by
  cases h with
  | quiet _ hsame => rwa [hsame]
  | served j _ _ _ _ hpast hothers =>
      by_cases hij : i = j
      · subst hij
        rw [hpast]
        exact List.mem_cons_of_mem _ hanswered
      · rwa [hothers i hij]

theorem AccountsStep.length_past (h : AccountsStep P calls pool pool') (i : ι) :
    (pool'.past i).length ≤ (pool.past i).length + 1 := by
  cases h with
  | quiet _ hsame =>
      rw [hsame]
      omega
  | served j _ _ _ _ hpast hothers =>
      by_cases hij : i = j
      · subst hij
        rw [hpast, List.length_cons]
      · rw [hothers i hij]
        omega

/-- What a call is told that it had not been told before. -/
theorem AccountsStep.answered_cases {i : ι} (h : AccountsStep P calls pool pool')
    {request : AccountRequest ι} {result : request.Result}
    (hanswered : Answered (pool'.past i) request result) :
    Answered (pool.past i) request result ∨
      AccountAllows P (calls i) (pool.past i) request ∧
        pool.shared.Serves i request (.ok result) pool'.shared := by
  cases h with
  | quiet _ hsame => exact .inl (by rwa [hsame] at hanswered)
  | served j served answer hallows hserves hpast hothers =>
      by_cases hij : i = j
      · subst hij
        rw [hpast] at hanswered
        rcases answered_cons_cases hanswered with heq | hbefore
        · cases heq
          exact .inr ⟨hallows, hserves⟩
        · exact .inl hbefore
      · exact .inl (by rwa [hothers i hij] at hanswered)

/-! ## What holds of every reachable pool -/

theorem AccountsRun.suffix_later (h : AccountsRun P calls pool)
    (hlater : Relation.ReflTransGen (Pool.Step (accountRules P calls)) pool pool') :
    pool.shared.history <:+ pool'.shared.history :=
  Pool.log_later (·.shared.history) (fun _ _ hbetween hstep =>
    (AccountsRun.step_cases (h.later hbetween) hstep).suffix) hlater

/-- What a call has been told was served to it at some moment. -/
theorem AccountsRun.served (h : AccountsRun P calls pool) {i : ι} {request : AccountRequest ι}
    {result : request.Result} (hanswered : Answered (pool.past i) request result) :
    ∃ s s', s.history <:+ pool.shared.history ∧
      AccountsState.Serves i s request (.ok result) s' := by
  obtain ⟨newer, older, hpast⟩ := List.append_of_mem hanswered
  obtain ⟨before, after, next, hbefore, hstep, hlater, -, hserves, -⟩ :=
    Pool.Run.served h ⟨newer, hpast.symm⟩
  have hsuffix := AccountsRun.suffix_later hbefore (.head hstep hlater)
  exact ⟨before.shared, after.shared, hsuffix, hserves⟩

/-- The rows that a call has read by their ids were stored at some moment. -/
theorem AccountsRun.found (h : AccountsRun P calls pool) {i : ι} {id : Long} {account : Account}
    (hanswered : Answered (pool.past i) (.findById id) (some account) ∨
      Answered (pool.past i) (.findByIdForUpdate id) (some account)) :
    ∃ moment, moment <:+ pool.shared.history ∧ (accountsAt moment).find? id = some account := by
  rcases hanswered with hanswered | hanswered
  · obtain ⟨s, s', hupto, hfound, -⟩ := h.served hanswered
    exact ⟨s.history, hupto, hfound.symm⟩
  · obtain ⟨s, s', hupto, -, hfound, -⟩ := h.served hanswered
    exact ⟨s.history, hupto, hfound.symm⟩

omit [DecidableEq ι] in
/-- A row that was read at an earlier moment and written back was still stored. -/
theorem AccountHistory.stored_of_read {history moment : List (AccountCommit ι)}
    (h : AccountHistory P history) (hmoment : moment <:+ history) {operation : AccountOperation}
    {before changed : Account} {accounts' : Table Account}
    (hread : (accountsAt moment).find? before.id = some before)
    (hstep : Account.Step P operation before changed)
    (hflush : (accountsAt history).flush [changed] = some accounts') :
    (accountsAt history).find? before.id = some before := by
  have hid : changed.id = before.id := hstep.continues.id
  rw [← hid] at hread ⊢
  exact (h.precedes hmoment).stored_of_flush hflush List.mem_cons_self hread hstep.version

omit [DecidableEq ι] in
theorem AccountHistory.updated_of_read {history moment : List (AccountCommit ι)}
    (h : AccountHistory P history) (hmoment : moment <:+ history) {author : ι}
    {operation : AccountOperation} {before changed stored : Account} {accounts' : Table Account}
    (hread : (accountsAt moment).find? before.id = some before)
    (hstep : Account.Step P operation before changed)
    (hflush : (accountsAt history).flush [changed] = some accounts')
    (hstored : accounts'.find? changed.id = some stored) :
    AccountHistory P (⟨author, operation, stored, accounts'⟩ :: history) := by
  have hcurrent := h.stored_of_read hmoment hread hstep hflush
  rw [← hstep.continues.id] at hcurrent
  refine .updated h hcurrent hstep hflush ?_
  rw [find?_flush_singleton hflush hcurrent, if_pos rfl] at hstored
  exact (Option.some.inj hstored).symm

/-- A transaction commits only what a history allows. -/
theorem AccountsRun.history_commits (h : AccountsRun P calls pool)
    (hhistory : AccountHistory P pool.shared.history) {i : ι} {operation : AccountOperation}
    {row stored : Account} (hallows : Writes P (pool.past i) operation row)
    (hcommits : pool.shared.Commits i operation row stored s') : AccountHistory P s'.history := by
  obtain ⟨-, accounts', ⟨hadmits, hstores⟩, rfl⟩ := hcommits
  -- the row that was read is stored under its own id
  have hread : ∀ {id : Long} {account : Account}, (Answered (pool.past i) (.findById id)
        (some account) ∨ Answered (pool.past i) (.findByIdForUpdate id) (some account)) →
      ∃ moment, moment <:+ pool.shared.history ∧
        (accountsAt moment).find? account.id = some account := by
    intro id account hanswered
    obtain ⟨moment, hupto, hfound⟩ := h.found hanswered
    have hid : account.id = id := Table.key_of_find? hfound
    exact ⟨moment, hupto, hid ▸ hfound⟩
  cases operation with
  | issue token =>
      obtain ⟨loginId, name, role, expires, rfl⟩ := hallows
      obtain ⟨⟨id, rfl⟩, hinsert⟩ := hstores
      exact .created hhistory .issued hadmits hinsert
  | bootstrap =>
      obtain ⟨loginId, name, passwordHash, rfl⟩ := hallows
      obtain ⟨⟨id, rfl⟩, hinsert⟩ := hstores
      exact .created hhistory .bootstrapped hadmits hinsert
  | reissueSetupToken token =>
      -- the rows that are changed were read before, with or without a lock
      obtain ⟨id, employee, expires, hanswered, hpassword, hactive, rfl⟩ := hallows
      obtain ⟨hflush, hstored⟩ := hstores
      obtain ⟨moment, hupto, hfound⟩ := hread (.inr hanswered)
      exact hhistory.updated_of_read hupto hfound (.reissued hpassword hactive) hflush hstored
  | setPassword token =>
      obtain ⟨id, employee, expires, now, password, passwordHash, older, hpast, haccepts, -, -,
        rfl⟩ := hallows
      obtain ⟨hflush, hstored⟩ := hstores
      -- the row was locked before the token was checked
      have hanswered : Answered (pool.past i) (.findByIdForUpdate id) (some employee) := by
        rw [hpast]
        simp [Answered]
      obtain ⟨moment, hupto, hfound⟩ := hread (.inr hanswered)
      exact hhistory.updated_of_read hupto hfound (.passwordSet haccepts) hflush hstored
  | active active actorId =>
      obtain ⟨id, employee, hanswered, hother, rfl⟩ := hallows
      obtain ⟨hflush, hstored⟩ := hstores
      -- the row was read without a lock: its version tells whether it is still stored
      obtain ⟨moment, hupto, hfound⟩ := h.found (.inl hanswered)
      have hid : employee.id = id := Table.key_of_find? hfound
      subst hid
      exact hhistory.updated_of_read hupto hfound (.activated hother) hflush hstored

/-- Whatever the calls do, they commit a history of accounts. -/
theorem AccountsRun.history (h : AccountsRun P calls pool) :
    AccountHistory P pool.shared.history := by
  induction h with
  | initial => exact .nil
  | @step pool pool' hrun hstep ih =>
      cases AccountsRun.step_cases hrun hstep with
      | quiet hquiet => rwa [hquiet.history]
      | served i request answer hallows hserves =>
          rcases hserves.history_cases with hsame | ⟨operation, row, stored, rfl, hcommits⟩
          · rwa [hsame]
          · exact AccountsRun.history_commits hrun ih (hallows.2.2 _ _ rfl) hcommits

/-! ## Accounts that are read and sessions that are saved -/

theorem AccountsState.Serves.readAt_cases {i j : ι} {request : AccountRequest ι}
    {answer : request.Answer} (h : s.Serves j request answer s') :
    s'.readAt i = s.readAt i ∨ i = j ∧ request.isRead = true := by
  cases h.effect with
  | quiet hquiet => exact .inl (congrFun hquiet.readAt i)
  | read loginId =>
      by_cases hij : i = j
      · exact .inr ⟨hij, rfl⟩
      · exact .inl (Function.update_of_ne hij ..)
  | saved => exact .inl rfl
  | committed hcommits =>
      obtain ⟨-, accounts', -, rfl⟩ := hcommits
      exact .inl rfl

/-- A call that has read its account does not read it again. -/
theorem AccountsStep.readAt {i : ι} (h : AccountsStep P calls pool pool') {loginId : JString}
    {found : Option Account} (hanswered : Answered (pool.past i) (.findByLoginId loginId) found) :
    pool'.shared.readAt i = pool.shared.readAt i := by
  cases h with
  | quiet hquiet => exact congrFun hquiet.readAt i
  | served j request answer hallows hserves =>
      rcases hserves.readAt_cases with hsame | ⟨hij, hread⟩
      · exact hsame
      · subst hij
        exfalso
        cases request with
        | findByLoginId other =>
            exact absurd (hallows _ hanswered) (by simp [AccountRequest.isRead])
        | _ => exact absurd hread (by simp [AccountRequest.isRead])

/-- What a call has read was true of the history that is remembered for it. -/
theorem AccountsRun.readAt (h : AccountsRun P calls pool) {i : ι} {loginId : JString}
    {found : Option Account} (hanswered : Answered (pool.past i) (.findByLoginId loginId) found) :
    pool.shared.readAt i <:+ pool.shared.history ∧
      found = EmployeeRepository.findByLoginId (accountsAt (pool.shared.readAt i)) loginId := by
  induction h with
  | initial => exact absurd hanswered List.not_mem_nil
  | @step pool pool' hrun hstep ih =>
      have hcases := AccountsRun.step_cases hrun hstep
      rcases hcases.answered_cases hanswered with hold | ⟨-, hfound, hread⟩
      · obtain ⟨hupto, hfound⟩ := ih hold
        rw [hcases.readAt hold]
        exact ⟨hupto.trans hcases.suffix, hfound⟩
      · have hnow : pool'.shared.readAt i = pool.shared.history := by
          rw [hread]
          exact Function.update_self ..
        rw [hnow]
        exact ⟨hcases.suffix, hfound⟩

theorem AccountsStep.authenticated {i : ι} (h : AccountsStep P calls pool pool')
    {principal : EmployeePrincipal} (hauthenticated : Authenticated (pool.past i) principal) :
    Authenticated (pool'.past i) principal := by
  obtain ⟨loginId, employee, hread, hactive⟩ := hauthenticated
  exact ⟨loginId, employee, h.answered hread, hactive⟩

/-- A session that is there was there before, or is saved by its login. -/
theorem AccountsStep.session_cases (h : AccountsStep P calls pool pool') {session : ι}
    {principal : EmployeePrincipal} (hsession : pool'.shared.sessions session = some principal) :
    pool.shared.sessions session = some principal ∨
      Authenticated (pool.past session) principal := by
  cases h with
  | quiet hquiet => exact .inl (hquiet.sessions _ _ hsession)
  | served i request answer hallows hserves =>
      generalize pool'.shared = s' at hserves hsession
      cases hserves.effect with
      | quiet hquiet => exact .inl (hquiet.sessions _ _ hsession)
      | read => exact .inl hsession
      | committed hcommits =>
          obtain ⟨-, accounts', -, rfl⟩ := hcommits
          exact .inl hsession
      | saved saved =>
          by_cases heq : session = i
          · subst heq
            obtain rfl : saved = principal := by
              simpa [AccountsState.save] using hsession
            exact .inr hallows
          · left
            calc pool.shared.sessions session
                = (pool.shared.save i saved).sessions session := (Function.update_of_ne heq ..).symm
              _ = some principal := hsession

/-- A session holds the principal of its login. -/
theorem AccountsRun.authenticated_session (h : AccountsRun P calls pool) {session : ι}
    {principal : EmployeePrincipal} (hsession : pool.shared.sessions session = some principal) :
    Authenticated (pool.past session) principal := by
  induction h with
  | initial => exact absurd hsession (by simp [Pool.initial, AccountsState.start])
  | @step pool pool' hrun hstep ih =>
      have hcases := AccountsRun.step_cases hrun hstep
      rcases hcases.session_cases hsession with hold | hsaved
      · exact hcases.authenticated (ih hold)
      · exact hcases.authenticated hsaved

/-- A request that has loaded a session has been given the principal of its login. -/
theorem AccountsRun.authenticated_load (h : AccountsRun P calls pool) {session i : ι}
    {principal : EmployeePrincipal}
    (hload : Answered (pool.past i) (.loadContext session) (some principal)) :
    Authenticated (pool.past session) principal := by
  induction h with
  | initial => exact absurd hload List.not_mem_nil
  | @step pool pool' hrun hstep ih =>
      have hcases := AccountsRun.step_cases hrun hstep
      rcases hcases.answered_cases hload with hold | ⟨-, hfound, -⟩
      · exact hcases.authenticated (ih hold)
      · exact hcases.authenticated (AccountsRun.authenticated_session hrun hfound.symm)

/-- A session is presented after its login has read the account. -/
theorem AccountsRun.readAt_load (h : AccountsRun P calls pool) {session i : ι}
    {principal : EmployeePrincipal} {loginId : JString} {found : Option Account}
    (hload : Answered (pool.past i) (.loadContext session) (some principal))
    (hread : Answered (pool.past i) (.findByLoginId loginId) found) :
    pool.shared.readAt session <:+ pool.shared.readAt i := by
  induction h with
  | initial => exact absurd hload List.not_mem_nil
  | @step pool pool' hrun hstep ih =>
      have hcases := AccountsRun.step_cases hrun hstep
      rcases hcases.answered_cases hload with hloaded | ⟨⟨-, hnew⟩, -⟩
      · obtain ⟨login, employee, hlogin, -⟩ := AccountsRun.authenticated_load hrun hloaded
        rw [hcases.readAt hlogin]
        rcases hcases.answered_cases hread with hold | ⟨-, -, hreads⟩
        · rw [hcases.readAt hold]
          exact ih hloaded hold
        · have hnow : pool'.shared.readAt i = pool.shared.history := by
            rw [hreads]
            exact Function.update_self ..
          rw [hnow]
          exact (AccountsRun.readAt hrun hlogin).1
      · -- the session is loaded before the account is read
        have hlength := hcases.length_past i
        rw [hnew] at hlength
        obtain ⟨first, hpast⟩ : ∃ first, pool'.past i = [first] :=
          List.length_eq_one_iff.mp (Nat.le_antisymm hlength (List.length_pos_of_mem hload))
        rw [Answered, hpast] at hload hread
        have hsame := (List.mem_singleton.mp hload).trans (List.mem_singleton.mp hread).symm
        exact absurd hsame (by simp)

/-- A commit that a call has been told of, with the pool that it was made in. -/
theorem AccountsRun.committed (h : AccountsRun P calls pool) {i : ι}
    {operation : AccountOperation} {row stored : Account} {older : AccountTranscript ι}
    (hpast : (⟨.commit operation row, .ok stored⟩ : AccountExchange ι) :: older <:+ pool.past i) :
    ∃ committing next accounts', AccountsRun P calls committing ∧
      committing.threads i = some ⟨older, some (.call (.commit operation row) next)⟩ ∧
      Relation.ReflTransGen (Pool.Step (accountRules P calls)) committing pool ∧
      operation.Stores committing.shared.accounts row stored accounts' ∧
      ⟨i, operation, stored, accounts'⟩ :: committing.shared.history <:+ pool.shared.history := by
  obtain ⟨committing, after, next, hcommitting, hstep, hlater, hthread, hserves, -⟩ :=
    Pool.Run.served h hpast
  obtain ⟨-, accounts', hstores, hafter⟩ := hserves
  have hsuffix := AccountsRun.suffix_later (.step hcommitting hstep) hlater
  rw [hafter] at hsuffix
  exact ⟨committing, next, accounts', hcommitting, hthread, .head hstep hlater, hstores, hsuffix⟩

/-- Whoever has made a commit had requested it, in the pool that it was made in. -/
theorem AccountsRun.authored (h : AccountsRun P calls pool) {commit : AccountCommit ι}
    {earlier : List (AccountCommit ι)} (hupto : commit :: earlier <:+ pool.shared.history) :
    ∃ (committing : AccountsPool ι) (row : Account) (answer : Except AccountFailure Account)
      (next : Except AccountFailure Account → AccountProgram ι AccountResult),
      AccountsRun P calls committing ∧ committing.shared.history = earlier ∧
      committing.threads commit.author =
        some ⟨committing.past commit.author, some (.call (.commit commit.operation row) next)⟩ ∧
      (⟨.commit commit.operation row, answer⟩ : AccountExchange ι) ::
        committing.past commit.author <:+ pool.past commit.author := by
  obtain ⟨committing, after, hcommitting, hstep, hlater, rfl, hadded⟩ :=
    h.added (fun _ _ _ hstep => AccountsState.history_cases_of_moves hstep.moves) hupto
      fun hnil => absurd (hnil.subset List.mem_cons_self) List.not_mem_nil
  have hgrown : after.shared.history ≠ committing.shared.history := by
    rw [hadded]
    exact List.cons_ne_self _ _
  rcases hstep.past_cases with ⟨-, ⟨session, hexpired⟩ | ⟨i, hstarts | hdies⟩⟩ |
    ⟨i, request, answer, next, hthread, hserves, hpast, -⟩
  · exact absurd (by rw [hexpired, AccountsState.expire]) hgrown
  · exact absurd (congrArg AccountsState.history hstarts) hgrown
  · have hleft : after.shared = committing.shared.leave i := hdies
    exact absurd (by rw [hleft, AccountsState.leave]) hgrown
  · rcases AccountsState.Serves.history_cases hserves with
      hsame | ⟨operation, row, stored, rfl, -, accounts', -, hafter⟩
    · exact absurd hsame hgrown
    · rw [hafter] at hadded
      obtain rfl : ⟨i, operation, stored, accounts'⟩ = commit := (List.cons.inj hadded).1
      exact ⟨committing, row, answer, next, hcommitting, rfl, hthread,
        hpast ▸ Pool.past_suffix_later hlater i⟩

/-- A row that a call has locked, with the pool that it was locked in. -/
theorem AccountsRun.locked (h : AccountsRun P calls pool) {i : ι} {id : Long} {account : Account}
    {older : AccountTranscript ι}
    (hpast : (⟨.findByIdForUpdate id, .ok (some account)⟩ : AccountExchange ι) :: older <:+
      pool.past i) :
    ∃ locked : AccountsPool ι, AccountsRun P calls locked ∧
      Relation.ReflTransGen (Pool.Step (accountRules P calls)) locked pool ∧
      locked.past i = ⟨.findByIdForUpdate id, .ok (some account)⟩ :: older ∧
      (.row id, i) ∈ locked.shared.locks ∧ locked.shared.accounts.find? id = some account := by
  obtain ⟨before, locked, next, hbefore, hstep, hlater, -, hserves, hlockedPast⟩ :=
    Pool.Run.served h hpast
  obtain ⟨-, hfound, hlocked⟩ := hserves
  refine ⟨locked, .step hbefore hstep, hlater, hlockedPast, ?_, ?_⟩
  · rw [hlocked]
    exact List.mem_cons_self
  · rw [hlocked]
    exact hfound.symm

/-! ## Locks -/

namespace AccountsState

/-- A request locks what nobody else has locked, or it locks nothing. -/
theorem Serves.locks_cases {i : ι} {request : AccountRequest ι} {answer : request.Answer}
    (h : s.Serves i request answer s') :
    (∃ lock, s.Free i lock ∧ s'.locks = (lock, i) :: s.locks) ∨ s'.locks ⊆ s.locks := by
  have hsame : s' = s → s'.locks ⊆ s.locks := by
    rintro rfl
    exact List.Subset.refl _
  have hleave : s'.locks = (s.leave i).locks → s'.locks ⊆ s.locks := by
    intro hlocks
    rw [hlocks]
    exact List.filter_subset_self _
  cases request with
  | findByIdForUpdate id =>
      cases answer with
      | ok found =>
          obtain ⟨hfree, -, rfl⟩ := h
          exact .inl ⟨.row id, hfree, rfl⟩
      | error e => exact .inr (hsame h)
  | lockBootstrap =>
      cases answer with
      | ok found =>
          obtain ⟨hfree, rfl⟩ := h
          exact .inl ⟨.bootstrap, hfree, rfl⟩
      | error e => exact .inr (hsame h)
  | rollback =>
      cases answer with
      | ok _ =>
          obtain rfl : s' = s.leave i := h
          exact .inr (hleave rfl)
      | error e => exact .inr (hsame h)
  | commit operation row =>
      have hcommits : ∀ stored, s.Commits i operation row stored s' → s'.locks ⊆ s.locks := by
        rintro stored ⟨-, accounts', -, rfl⟩
        exact hleave rfl
      -- a commit locks nothing, whether or not it takes effect
      cases answer with
      | ok stored => exact .inr (hcommits stored h)
      | error e =>
          rcases h with hquiet | ⟨stored, hstored⟩
          · exact .inr (hsame hquiet)
          · exact .inr (hcommits stored hstored)
  | loadContext | findByLoginId | findById | findIdBySetupTokenHash | count =>
      cases answer with
      | ok found =>
          obtain ⟨-, rfl⟩ := h
          exact .inr (List.Subset.refl _)
      | error e => exact .inr (hsame h)
  | saveContext | invalidate | now | nextToken | matchesHash | encode =>
      cases answer with
      | ok _ =>
          obtain rfl := h
          exact .inr (List.Subset.refl _)
      | error e => exact .inr (hsame h)

end AccountsState

/-- Who holds which lock. -/
def AccountsState.Holds (s : AccountsState ι) (lock : AccountLock) (i : ι) : Prop :=
  (lock, i) ∈ s.locks

/-- A call does not take a lock from another. -/
theorem keeps_locks (P : Platform) (calls : ι → AccountCall ι) :
    (accountRules P calls).Keeps AccountsState.Holds AccountRequest.isLast where
  others hothers hholds := by
    obtain ⟨session, rfl⟩ := hothers
    exact hholds
  starts hstarts hholds := by
    cases hstarts
    exact hholds
  serves hserves hopen hholds := AccountsState.Serves.holds hserves hholds hopen
  dies hdies hij hholds := by
    cases hdies
    exact AccountsState.holds_leave hholds hij

/-- A lock is acquired only while nobody else holds it. -/
theorem locks_acquiresFree (hmoves : (accountRules P calls).Moves s s') :
    AcquiresFree s.Holds s'.Holds := by
  rcases hmoves with ⟨session, rfl⟩ | ⟨i, hstarts | hdies | ⟨request, answer, hserves⟩⟩
  · exact .refl _
  · cases hstarts
    exact .refl _
  · cases hdies
    exact .of_le fun _ _ hleft => List.filter_subset_self _ hleft
  · rcases AccountsState.Serves.locks_cases hserves with ⟨lock, hfree, hlocks⟩ | hlocks
    · refine .acquire (fun j hj => hfree _ hj rfl) fun key j hj => ?_
      rw [AccountsState.Holds, hlocks] at hj
      rcases List.mem_cons.mp hj with heq | hbefore
      · exact .inr (Prod.mk.inj heq)
      · exact .inl hbefore
    · exact .of_le fun _ _ hafter => hlocks hafter

/-- A lock has one holder. -/
theorem AccountsRun.heldOnce (h : AccountsRun P calls pool) : HeldOnce pool.shared.Holds :=
  Pool.Run.heldOnce h (fun _ _ _ hi _ => absurd hi List.not_mem_nil) fun _ _ => locks_acquiresFree

end ReceiptReview
