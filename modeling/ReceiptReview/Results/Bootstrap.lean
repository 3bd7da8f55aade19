import ReceiptReview.Results.SetupTokens

/-!
# The first administrator

Two administrators that are prepared at once have different login ids, so no
constraint of the table stands between them.  The row of the bootstrap does: a call
locks it before it counts the accounts, and holds it until its transaction ends.
While the table is empty nobody else can create an account, for a request does so only
for an employee that the filter has read; so what the call has counted is still true
when it commits (`AccountsRun.empty_of_counted`).
-/

namespace ReceiptReview

open Java Store EmployeeService AccountTranscript

variable {P : Platform} {ι : Type} {history earlier : List (AccountCommit ι)}
variable {commit commit' : AccountCommit ι}

/-- Accounts are issued by requests: the controller is the only caller of `issue`. -/
def IssuedByRequest (calls : ι → AccountCall ι) : Prop :=
  ∀ i authority request, calls i ≠ .service authority (.issue request)

/-- What a bootstrap is refused for. -/
inductive BootstrapRefused (loginId password : JString) (past : AccountTranscript ι) : Prop
  | missingLockRow {row : Option ℤ} : Answered past .lockBootstrap row → row ≠ some 1 →
      BootstrapRefused loginId password past
  | notEmpty {count : ℕ} : Answered past .count count → count ≠ 0 →
      BootstrapRefused loginId password past
  | badLoginId : isLoginId loginId = false → BootstrapRefused loginId password past
  | badPassword {e : AccountFailure} : validatePassword password = .error e →
      BootstrapRefused loginId password past

/-- No transaction of the call has committed. -/
def CommitsNothing (pool : AccountsPool ι) (i : ι) : Prop :=
  ∀ commit ∈ pool.shared.history, commit.author ≠ i

structure BootstrapOnce (calls : ι → AccountCall ι) (pool : AccountsPool ι) : Prop where
  once : (pool.shared.history.filter fun commit => (calls commit.author).isBootstrap).length ≤ 1
  first : ∀ commit earlier, commit :: earlier <:+ pool.shared.history →
    (calls commit.author).isBootstrap = true → earlier = []
  succeeds : ∀ i j result result', (calls i).isBootstrap = true → (calls j).isBootstrap = true →
    pool.Ended i (.ok result) → pool.Ended j (.ok result') → i = j
  refused : ∀ i authority loginId password,
    calls i = .service authority (.bootstrap loginId password) →
      BootstrapRefused loginId password (pool.past i) →
      CommitsNothing pool i ∧ ∀ result, ¬ pool.Ended i (.ok result)
  fails : ∀ i e, (calls i).isBootstrap = true → pool.Ended i (.error e) →
    (∀ operation row e',
      (⟨.commit operation row, .error e'⟩ : AccountExchange ι) ∉ pool.past i) →
    CommitsNothing pool i
  passwords : ∀ earlier id account, earlier <:+ pool.shared.history →
    (accountsAt earlier).find? id = some account → account.passwordHash ≠ none →
    ∃ later, pool.shared.accounts.find? id = some later ∧
      later.passwordHash = account.passwordHash

/-- The call lives, and its transaction has not ended. -/
structure InTransaction (pool : AccountsPool ι) (i : ι) : Prop where
  alive : ∀ dead, pool.threads i ≠ some ⟨dead, none⟩
  opened : ∀ exchange ∈ pool.past i, exchange.request.isLast = false

/-- Commits that can only be the first one of their history are one at most. -/
theorem length_filter_le_one {p : AccountCommit ι → Bool}
    (hfirst : ∀ commit earlier, commit :: earlier <:+ history → p commit = true → earlier = []) :
    (history.filter p).length ≤ 1 := by
  induction history with
  | nil => exact Nat.zero_le 1
  | cons commit history ih =>
      cases hp : p commit with
      | true =>
          obtain rfl := hfirst commit history List.suffix_rfl hp
          exact List.length_filter_le ..
      | false =>
          rw [List.filter_cons_of_neg (by simp [hp])]
          exact ih fun commit' earlier hupto =>
            hfirst commit' earlier (hupto.trans (List.suffix_cons ..))

theorem head_eq_of_suffix {α : Type} {a b : α} {l m : List α} (ha : a :: l <:+ m)
    (hb : b :: l <:+ m) : a = b := by
  have hsuffix := List.suffix_of_suffix_length_le ha hb (Nat.le_refl _)
  exact (List.cons.inj (hsuffix.eq_of_length rfl)).1

/-! ## What a call holds and has counted -/

section Calls

variable [DecidableEq ι] {calls : ι → AccountCall ι} {pool pool' : AccountsPool ι} {i : ι}
variable {past older : AccountTranscript ι} {p : AccountProgram ι AccountResult}

theorem AccountsRun.creationAllows (h : AccountsRun P calls pool) {request : AccountRequest ι}
    {next : request.Answer → AccountProgram ι AccountResult}
    (hthread : pool.threads i = some ⟨past, some (.call request next)⟩) :
    CreationAllows (calls i) past request :=
  Pool.Run.allowed h (fun _ _ _ _ _ _ => trivial) (justifiedAlong_program (calls i))
    hthread

theorem AccountsRun.creationAllows_past (h : AccountsRun P calls pool)
    {exchange : AccountExchange ι} (hmem : exchange ∈ pool.past i) :
    ∃ older, exchange :: older <:+ pool.past i ∧ CreationAllows (calls i) older exchange.request :=
  Pool.Run.allowed_past h (fun _ _ _ _ _ _ => trivial)
    (justifiedAlong_program (calls i)) hmem

/-- The filter reads an account only of a table that has one. -/
theorem AccountsRun.ne_nil_of_read (h : AccountsRun P calls pool)
    (hread : ReadAccount (pool.past i)) : pool.shared.history ≠ [] := by
  intro hempty
  obtain ⟨loginId, employee, hanswered⟩ := hread
  obtain ⟨s, s', hupto, hfound, -⟩ := h.served hanswered
  rw [hempty, List.suffix_nil] at hupto
  have hnone : EmployeeRepository.findByLoginId s.accounts loginId = none := by
    rw [AccountsState.accounts, hupto]
    rfl
  exact absurd (hfound.trans hnone) (by simp)

theorem InTransaction.before (h : InTransaction pool' i)
    (hlater : Relation.ReflTransGen (Pool.Step (accountRules P calls)) pool pool') :
    InTransaction pool i where
  alive dead hdead := h.alive dead (Pool.dead_later hlater hdead)
  opened exchange hmem := h.opened exchange ((Pool.past_suffix_later hlater i).subset hmem)

/-- A call that has locked the row holds it until its transaction ends. -/
theorem AccountsRun.holds_bootstrap (h : AccountsRun P calls pool)
    (hlocked : [lockedExchange] <:+ pool.past i) (hopen : InTransaction pool i) :
    (.bootstrap, i) ∈ pool.shared.locks := by
  obtain ⟨before, locked, next, hbefore, hstep, hlater, -, ⟨-, hafter⟩, -⟩ :=
    Pool.Run.served h hlocked
  have hlock : (.bootstrap, i) ∈ locked.shared.locks := by
    rw [hafter]
    exact List.mem_cons_self
  refine (keeps_locks P calls).later hlater hlock hopen.alive fun exchange older hupto _ => ?_
  exact hopen.opened exchange (hupto.subset List.mem_cons_self)

omit [DecidableEq ι] in
/-- A bootstrap is about to commit. -/
theorem InTransaction.of_justified (hthread : pool.threads i = some ⟨pool.past i, some p⟩)
    (hjustified : Justified (calls i) (pool.past i) .bootstrap) : InTransaction pool i where
  alive dead hdead := absurd (hthread.symm.trans hdead) (by simp)
  opened exchange hmem := by
    obtain ⟨authority, loginId, password, passwordHash, -, hpast, -, -⟩ := hjustified
    simp only [hpast, List.mem_cons, List.not_mem_nil, or_false] at hmem
    rcases hmem with rfl | rfl | rfl <;> rfl

omit [DecidableEq ι] in
theorem Justified.counted {call : AccountCall ι} (h : Justified call past .bootstrap) :
    [emptyExchange, lockedExchange] <:+ past := by
  obtain ⟨authority, loginId, password, passwordHash, -, rfl, -, -⟩ := h
  exact List.suffix_cons ..

/-- While a call holds the row and has not ended its transaction, an empty table stays
empty. -/
theorem AccountsRun.empty_step (h : AccountsRun P calls pool) (hissued : IssuedByRequest calls)
    (hstep : Pool.Step (accountRules P calls) pool pool') (hempty : pool.shared.history = [])
    (hlocked : [lockedExchange] <:+ pool.past i) (hopen : InTransaction pool' i) :
    pool'.shared.history = [] := by
  have hhistory : AccountHistory P pool'.shared.history :=
    AccountsRun.history (.step h hstep)
  rcases hstep.past_cases with ⟨-, ⟨session, hexpired⟩ | ⟨j, hstarts | hdies⟩⟩ |
    ⟨j, request, answer, next, hthread, hserves, hpast, -⟩
  · rw [hexpired]
    exact hempty
  · have hsame : pool'.shared = pool.shared := hstarts
    rwa [hsame]
  · have hleft : pool'.shared = pool.shared.leave j := hdies
    rw [hleft]
    exact hempty
  · rcases AccountsState.Serves.history_cases hserves with
      hsame | ⟨operation, row, stored, rfl, -, accounts', -, hafter⟩
    · rwa [hsame]
    · exfalso
      have hcreated : Account.Created P operation stored := by
        rw [hafter] at hhistory
        have hfirst : AccountHistory P
            (⟨j, operation, stored, accounts'⟩ :: pool.shared.history) := hhistory
        rw [hempty] at hfirst
        exact hfirst.created_first
      have hjustified : Justified (calls j) (pool.past j) operation :=
        h.creationAllows hthread
      cases hcreated with
      | issued =>
          obtain ⟨-, ⟨authority, request, hdirect⟩ | hread⟩ := hjustified
          · exact hissued j authority request hdirect
          · exact h.ne_nil_of_read hread hempty
      | bootstrapped =>
          -- who commits holds the row too
          have hlock := h.holds_bootstrap hlocked (hopen.before (.single hstep))
          have hlock' := h.holds_bootstrap ((List.suffix_cons ..).trans hjustified.counted)
            (.of_justified hthread hjustified)
          obtain rfl : i = j := h.heldOnce .bootstrap i j hlock hlock'
          have hlast := hopen.opened ⟨.commit .bootstrap row, answer⟩ (hpast ▸ List.mem_cons_self)
          exact absurd hlast (by simp [AccountRequest.isLast])

/-- What a bootstrap has counted is true until its transaction ends. -/
theorem AccountsRun.empty_of_counted (h : AccountsRun P calls pool)
    (hissued : IssuedByRequest calls)
    (hcounted : [emptyExchange, lockedExchange] <:+ pool.past i) (hopen : InTransaction pool i) :
    pool.shared.history = [] := by
  obtain ⟨before, counted, next, hbefore, hstep, hlater, -, ⟨hcount, hafter⟩, hpast⟩ :=
    Pool.Run.served h hcounted
  have hrows : before.shared.accounts.rows.length = 0 := hcount.symm
  have hempty : counted.shared.history = [] := by
    rw [hafter]
    exact (AccountsRun.history hbefore).eq_nil_of_rows hrows
  have hlocked : [lockedExchange] <:+ counted.past i := by
    rw [hpast]
    exact List.suffix_cons ..
  have hrun : AccountsRun P calls counted := .step hbefore hstep
  clear hcount hafter hcounted
  induction hlater with
  | refl => exact hempty
  | @tail between after hbetween hstep' ih =>
      have hbetweenRun := Pool.Run.later hrun hbetween
      exact AccountsRun.empty_step hbetweenRun hissued hstep'
        (ih hbetweenRun (hopen.before (.single hstep')))
        (hlocked.trans (Pool.past_suffix_later hbetween i)) hopen

/-! ## What a bootstrap has committed -/

omit [DecidableEq ι] in
theorem Justified.eq_bootstrap {call : AccountCall ι} {operation : AccountOperation}
    (h : Justified call past operation) (hcall : call.isBootstrap = true) :
    operation = .bootstrap := by
  cases operation with
  | bootstrap => rfl
  | issue => exact absurd (h.1.symm.trans hcall) (by simp)
  | reissueSetupToken | setPassword | active => exact absurd (h.symm.trans hcall) (by simp)

/-- A bootstrap commits after its checks, and the first of all. -/
theorem AccountsRun.committed_bootstrap (h : AccountsRun P calls pool)
    (hissued : IssuedByRequest calls) (hupto : commit :: earlier <:+ pool.shared.history)
    (hcall : (calls commit.author).isBootstrap = true) :
    earlier = [] ∧ ∃ past, past <:+ pool.past commit.author ∧
      Justified (calls commit.author) past .bootstrap ∧ ∃ row answer,
        (⟨.commit .bootstrap row, answer⟩ : AccountExchange ι) ∈ pool.past commit.author := by
  obtain ⟨committing, row, answer, next, hcommitting, rfl, hthread, hpast⟩ := h.authored hupto
  have hjustified : Justified (calls commit.author) (committing.past commit.author)
      commit.operation := hcommitting.creationAllows hthread
  have hoperation := hjustified.eq_bootstrap hcall
  rw [hoperation] at hpast
  rw [hoperation] at hjustified
  have hempty := hcommitting.empty_of_counted hissued hjustified.counted
    (.of_justified hthread hjustified)
  exact ⟨hempty, _, (List.suffix_cons ..).trans hpast, hjustified, row, answer,
    hpast.subset List.mem_cons_self⟩

/-- The bootstrap that was refused has not passed its checks. -/
theorem AccountsRun.not_refused (h : AccountsRun P calls pool)
    {authority : Option EmployeeRole} {loginId password : JString}
    (hcall : calls i = .service authority (.bootstrap loginId password))
    (hpast : past <:+ pool.past i) (hjustified : Justified (calls i) past .bootstrap) :
    ¬ BootstrapRefused loginId password (pool.past i) := by
  have hcounted := hjustified.counted.trans hpast
  obtain ⟨authority', loginId', password', passwordHash, hcall', -, hloginId, hpassword⟩ :=
    hjustified
  cases hcall.symm.trans hcall'
  rintro (⟨hanswered, hrow⟩ | ⟨hanswered, hcount⟩ | hbad | hbad)
  · obtain ⟨older, hsuffix, rfl⟩ := h.creationAllows_past hanswered
    have hsame := head_eq_of_suffix hsuffix ((List.suffix_cons ..).trans hcounted)
    cases hsame
    exact hrow rfl
  · obtain ⟨older, hsuffix, rfl⟩ := h.creationAllows_past hanswered
    have hsame := head_eq_of_suffix hsuffix hcounted
    cases hsame
    exact hcount rfl
  · exact absurd (hloginId.symm.trans hbad) (by simp)
  · exact absurd (hpassword.symm.trans hbad) (by simp)

theorem AccountsRun.bootstrapEnds (h : AccountsRun P calls pool)
    (hcall : (calls i).isBootstrap = true) {outcome : Except AccountFailure AccountResult}
    (hended : pool.Ended i outcome) : BootstrapEnds outcome (pool.past i) := by
  exact Pool.Run.outcome h (fun _ _ _ _ _ _ => trivial) (bootstrapAlong_program hcall) hended

/-- A bootstrap that has succeeded has made the first commit. -/
theorem AccountsRun.succeeded_first (h : AccountsRun P calls pool)
    (hissued : IssuedByRequest calls) (hcall : (calls i).isBootstrap = true)
    {result : AccountResult} (hended : pool.Ended i (.ok result)) :
    ∃ commit : AccountCommit ι, commit.author = i ∧ [commit] <:+ pool.shared.history := by
  obtain ⟨row, stored, hanswered⟩ := h.bootstrapEnds hcall hended
  obtain ⟨newer, older, hpast⟩ := List.append_of_mem hanswered
  obtain ⟨committing, -, accounts', -, -, -, -, hupto⟩ := h.committed ⟨newer, hpast.symm⟩
  obtain ⟨hempty, -⟩ := h.committed_bootstrap hissued hupto hcall
  rw [hempty] at hupto
  exact ⟨_, rfl, hupto⟩

/-- Whatever the calls do, at most one bootstrap commits, and it does so while there is
no account; one that fails has committed nothing. -/
theorem bootstrap_once (h : AccountsRun P calls pool) (hissued : IssuedByRequest calls) :
    BootstrapOnce calls pool where
  once := length_filter_le_one fun _ _ hupto hcall => (h.committed_bootstrap hissued hupto hcall).1
  first _ _ hupto hcall := (h.committed_bootstrap hissued hupto hcall).1
  succeeds i j _ _ hcall hcall' hended hended' := by
    obtain ⟨commit, hauthor, hfirst⟩ := h.succeeded_first hissued hcall hended
    obtain ⟨commit', hauthor', hfirst'⟩ := h.succeeded_first hissued hcall' hended'
    rw [← hauthor, ← hauthor', head_eq_of_suffix hfirst hfirst']
  refused i authority loginId password hcall hrefused := by
    have hbootstrap : (calls i).isBootstrap = true := by
      rw [hcall]
      rfl
    have hnothing : CommitsNothing pool i := by
      rintro commit hmem rfl
      obtain ⟨newer, earlier, hhistory⟩ := List.append_of_mem hmem
      obtain ⟨-, past, hpast, hjustified, -⟩ :=
        h.committed_bootstrap hissued ⟨newer, hhistory.symm⟩ hbootstrap
      exact h.not_refused hcall hpast hjustified hrefused
    refine ⟨hnothing, fun result hended => ?_⟩
    obtain ⟨commit, hauthor, hfirst⟩ := h.succeeded_first hissued hbootstrap hended
    exact hnothing commit (hfirst.subset List.mem_cons_self) hauthor
  fails i e hcall hended hunfailed commit hmem hauthor := by
    subst hauthor
    obtain ⟨newer, earlier, hhistory⟩ := List.append_of_mem hmem
    obtain ⟨-, -, -, -, row, answer, hrequested⟩ :=
      h.committed_bootstrap hissued ⟨newer, hhistory.symm⟩ hcall
    cases answer with
    | ok stored => exact h.bootstrapEnds hcall hended _ row stored hrequested
    | error e' => exact hunfailed _ row e' hrequested
  passwords _ _ _ hupto hstored hset := h.history.passwordHash_kept hupto hstored hset

end Calls

/-! ## Two administrators -/

namespace Sample

/-- Two administrators are prepared. -/
def bootstrapCalls : ℕ → AccountCall ℕ
  | 0 => .service none (.bootstrap (.ofString "first") password)
  | 1 => .service none (.bootstrap (.ofString "second") password)
  | _ => .http none .me

/-- The second one starts while the first one holds the row, and waits for it. -/
def bothBootstrap : List (Pool.Move ℕ AccountEnvironment) :=
  begins 0 2 1 ++ .start 1 :: continues 0 2 1 ++ continues 1 3 2

theorem issuedByRequest_bootstrapCalls : IssuedByRequest bootstrapCalls
  | 0, _, _ | 1, _, _ | _ + 2, _, _ => by simp [bootstrapCalls]

end Sample

open Sample in
/-- The first administrator is there before the second call counts the accounts. -/
theorem bothBootstrap_once :
    ∃ pool : AccountsPool ℕ, AccountsRun platform bootstrapCalls pool ∧
      BootstrapRefused (.ofString "second") password (pool.past 1) ∧
      pool.shared.accounts.rows.length = 1 ∧ pool.Ended 0 (.ok .noContent) ∧
      BootstrapOnce bootstrapCalls pool := by
  have hrun : AccountsRun platform bootstrapCalls
      (accountsAfter platform bootstrapCalls bothBootstrap) := accountsRun_accountsAfter _
  have hpast : (accountsAfter platform bootstrapCalls bothBootstrap).past 1 =
      [⟨.rollback, .ok ()⟩, ⟨.count, .ok 1⟩, lockedExchange] := rfl
  have hcounted : Answered ((accountsAfter platform bootstrapCalls bothBootstrap).past 1)
      .count 1 := by
    rw [Answered, hpast]
    exact List.mem_cons_of_mem _ List.mem_cons_self
  exact ⟨_, hrun, .notEmpty hcounted (by decide), by decide +kernel, Pool.ended_of_outcome? rfl,
    bootstrap_once hrun issuedByRequest_bootstrapCalls⟩

end ReceiptReview
