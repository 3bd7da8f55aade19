import ReceiptReview.Program.Pool
import ReceiptReview.Results.Ownership

/-!
# Workers in the running system

The claims that `claimAvailable` hands out are submitted to executors, and every
claim whose task is run has a thread of its own, the run of `process` with that
claim.  A claim that is never run was rejected by the executor, or its worker
has stopped or crashed; the worker may then hand it back through `release`.  A
running thread may die at any moment, and everything else goes on beside it:
other operations commit, among them further claims and the recovery of expired
leases.

The storage, the decoder and the extractor return anything or throw anything,
and a lifecycle transaction commits or throws.  The only assumption is that the
drawn claim tokens do not repeat.
-/

namespace ReceiptReview

open Java Store ReceiptCase ReceiptExtractionProcessor

/-- The run, and the claims whose `process` has been started, the newest first. -/
@[ext]
structure WorkerState where
  trace : List Commit
  started : List ClaimedReceiptJob

/-- All claims that were handed out. -/
def handedOut (trace : List Commit) : List ClaimedReceiptJob :=
  trace.flatMap Commit.handedOut

/-- The operation is a transaction of a running `process`. -/
def Operation.isOfProcess : Operation → Bool
  | completeQualityRejection .. | completeExtraction .. | scheduleRetry .. | failExtraction .. =>
      true
  | _ => false

namespace ProcessRequest

/-- The transaction that a request runs. -/
def Runs : ProcessRequest → Operation → Prop
  | completeQualityRejection claim quality, operation =>
      ∃ now, operation = .completeQualityRejection claim quality now
  | completeExtraction claim extraction extractedAt, operation =>
      ∃ today completedAt,
        operation = .completeExtraction claim extraction extractedAt today completedAt
  | scheduleRetry claim errorCode errorMessage nextRetryAt, operation =>
      ∃ now, operation = .scheduleRetry claim errorCode errorMessage nextRetryAt now
  | failExtraction claim errorCode errorMessage, operation =>
      ∃ now, operation = .failExtraction claim errorCode errorMessage now
  | load _, _ | inspect _, _ | extract _, _ | now, _ => False

/-- What the transaction of a request replies, if it has one. -/
def reply? : (request : ProcessRequest) → request.Result → Option Reply
  | completeQualityRejection _ _, receipt | completeExtraction _ _ _, receipt
  | scheduleRetry _ _ _ _, receipt | failExtraction _ _ _, receipt => some (.receipt receipt)
  | load _, _ | inspect _, _ | extract _, _ | now, _ => none

theorem claim?_of_runs {request : ProcessRequest} {operation : Operation}
    (h : request.Runs operation) : operation.claim? = request.claim? := by
  cases request <;> first | exact h.elim | skip
  case completeQualityRejection | scheduleRetry | failExtraction =>
      obtain ⟨now, rfl⟩ := h
      rfl
  case completeExtraction =>
      obtain ⟨today, completedAt, rfl⟩ := h
      rfl

theorem permitted_of_runs {P : Platform} {employees : Table Employee} {request : ProcessRequest}
    {operation : Operation} (h : request.Runs operation) : operation.Permitted P employees := by
  cases request <;> first | exact h.elim | skip
  case completeQualityRejection | scheduleRetry | failExtraction =>
      obtain ⟨now, rfl⟩ := h
      trivial
  case completeExtraction =>
      obtain ⟨today, completedAt, rfl⟩ := h
      trivial

/-- Only the request for a retry runs `scheduleRetry`. -/
theorem eq_scheduleRetry {request : ProcessRequest} {claim : ClaimedReceiptJob}
    {errorCode : JString} {errorMessage : Option JString} {nextRetryAt now : Instant}
    (h : request.Runs (.scheduleRetry claim errorCode errorMessage nextRetryAt now)) :
    request = .scheduleRetry claim errorCode errorMessage nextRetryAt := by
  cases request with
  | scheduleRetry =>
      obtain ⟨_, hsame⟩ := h
      cases hsame
      rfl
  | _ => exact absurd h (by simp [Runs])

/-- Only the request to give up runs `failExtraction`. -/
theorem eq_failExtraction {request : ProcessRequest} {claim : ClaimedReceiptJob}
    {errorCode : JString} {errorMessage : Option JString} {now : Instant}
    (h : request.Runs (.failExtraction claim errorCode errorMessage now)) :
    request = .failExtraction claim errorCode errorMessage := by
  cases request with
  | failExtraction =>
      obtain ⟨_, hsame⟩ := h
      cases hsame
      rfl
  | _ => exact absurd h (by simp [Runs])

end ProcessRequest

/-- The tokens that a commit has drawn are new. -/
def Commit.DrawsFresh (trace : List Commit) (commit : Commit) : Prop :=
  (commit.handedOut.map ClaimedReceiptJob.claimToken).Nodup ∧
    ∀ claim ∈ commit.handedOut, ∀ other, HandedOut trace other →
      other.claimToken ≠ claim.claimToken

/-- The claim was handed back. -/
def HandedBack (trace : List Commit) (claim : ClaimedReceiptJob) : Prop :=
  ∃ commit ∈ trace, ∃ now, commit.operation = .release claim now

variable (P : Platform) (employees : Table Employee)

namespace WorkerState

/-- A request of `process` is answered.  Only a lifecycle transaction that
commits changes anything. -/
def Serves (s : WorkerState) (request : ProcessRequest) (answer : request.Answer)
    (s' : WorkerState) : Prop :=
  match answer with
  | .error _ => s' = s
  | .ok result =>
      match request.reply? result with
      | none => s' = s
      | some reply =>
          (∃ operation, request.Runs operation ∧
            Extends P employees s.trace operation reply s'.trace) ∧ s'.started = s.started

/-- An operation that no running thread calls commits, such as the release of a
claim that was not started. -/
def Others (s s' : WorkerState) : Prop :=
  (∃ operation reply, operation.isOfProcess = false ∧ operation.Permitted P employees ∧
    Extends P employees s.trace operation reply s'.trace ∧
    ∀ claim, operation.claim? = some claim → HandedOut s.trace claim ∧ claim ∉ s.started) ∧
  (∀ commit, s'.trace = commit :: s.trace → commit.DrawsFresh s.trace) ∧ s'.started = s.started

/-- The task of a claim begins, unless the worker has handed the claim back. -/
def Starts (claim : ClaimedReceiptJob) (s s' : WorkerState) : Prop :=
  HandedOut s.trace claim ∧ ¬ HandedBack s.trace claim ∧
    s' = { s with started := claim :: s.started }

end WorkerState

/-- The threads of the workers, one for each claim. -/
def workerRules : PoolRules ClaimedReceiptJob WorkerState ProcessRequest ProcessRequest.Answer
    Failure Receipt where
  program := process
  starts := WorkerState.Starts
  serves _ := WorkerState.Serves P employees
  dies _ s s' := s' = s
  others := WorkerState.Others P employees

abbrev WorkerPool : Type :=
  Pool ClaimedReceiptJob WorkerState ProcessRequest ProcessRequest.Answer Failure Receipt

/-- The pools that are reached from the empty store. -/
def WorkerRun (pool : WorkerPool) : Prop :=
  Pool.Run (workerRules P employees) ⟨[], []⟩ pool

variable {P employees} {pool pool' : WorkerPool} {s s' : WorkerState}
variable {claim : ClaimedReceiptJob} {commit : Commit} {trace : List Commit}

theorem mem_handedOut : claim ∈ handedOut trace ↔ HandedOut trace claim :=
  List.mem_flatMap

theorem Disciplined.cons (h : Disciplined trace) (hfresh : commit.DrawsFresh trace)
    (hclaim : ∀ claim, commit.operation.claim? = some claim → HandedOut trace claim) :
    Disciplined (commit :: trace) :=
  ⟨h, hclaim, hfresh⟩

/-! ## What `process` requests -/

/-- The exception makes `process` give up at once. -/
def Failure.isFatal : Failure → Bool
  | receiptImageStorage _ false | receiptImageNotFound => true
  | _ => false

/-- The exception is one that `process` retries. -/
def Failure.isRetryable : Failure → Bool
  | extraction _ | receiptImageStorage _ true => true
  | _ => false

/-- A collaborator has thrown an exception that makes `process` give up. -/
def FailedFatally (past : Transcript ProcessRequest ProcessRequest.Answer) : Prop :=
  ∃ exchange ∈ past, ∃ e, exchange.answer = .error e ∧ e.isFatal = true

/-- A run of `process` uses its own claim.  It schedules a retry only below the
limit of attempts, and it gives up only at the limit or after a fatal failure. -/
def ProcessAllows (claim : ClaimedReceiptJob)
    (past : Transcript ProcessRequest ProcessRequest.Answer) (request : ProcessRequest) : Prop :=
  (∀ other, request.claim? = some other → other = claim) ∧
    match request with
    | .scheduleRetry _ _ _ _ => claim.attemptCount < MAX_ATTEMPTS
    | .failExtraction _ _ _ => MAX_ATTEMPTS ≤ claim.attemptCount ∨ FailedFatally past
    | _ => True

/-- A run of `process` uses its own claim, and it reports the failure that it has just caught:
one that is retried leads to a retry below the limit of attempts and ends the job at the limit,
and a fatal one ends the job at once. -/
def ProcessReports (claim : ClaimedReceiptJob)
    (past : Transcript ProcessRequest ProcessRequest.Answer) (request : ProcessRequest) : Prop :=
  (∀ other, request.claim? = some other → other = claim) ∧
    match request with
    | .scheduleRetry _ errorCode errorMessage _ => ∃ now failed e earlier,
        past = ⟨.now, .ok now⟩ :: ⟨failed, .error e⟩ :: earlier ∧
          errorCode = .ofString e.simpleName ∧ errorMessage = e.message ∧
          e.isRetryable = true ∧ claim.attemptCount < MAX_ATTEMPTS
    | .failExtraction _ errorCode errorMessage => ∃ failed e earlier,
        past = ⟨failed, .error e⟩ :: earlier ∧
          errorCode = .ofString e.simpleName ∧ errorMessage = e.message ∧
          (e.isRetryable = true ∧ MAX_ATTEMPTS ≤ claim.attemptCount ∨ e.isFatal = true)
    | _ => True

section Process

variable {past : Transcript ProcessRequest ProcessRequest.Answer}

theorem ProcessReports.allows {request : ProcessRequest}
    (h : ProcessReports claim past request) : ProcessAllows claim past request := by
  refine ⟨h.1, ?_⟩
  cases request with
  | scheduleRetry claimedJob errorCode errorMessage nextRetryAt =>
      obtain ⟨-, -, -, -, -, -, -, -, hattempts⟩ := h.2
      exact hattempts
  | failExtraction claimedJob errorCode errorMessage =>
      obtain ⟨failed, e, earlier, rfl, -, -, hcause⟩ := h.2
      rcases hcause with ⟨-, hattempts⟩ | hfatal
      · exact .inl hattempts
      · exact .inr ⟨_, List.mem_cons_self, e, rfl, hfatal⟩
  | _ => trivial

theorem along_retryOrFail {request : ProcessRequest} {e : Failure} (he : e.isRetryable = true) :
    Program.along (fun _ _ => True) (ProcessReports claim) (retryOrFail claim e)
      (fun _ _ => True) (⟨request, .error e⟩ :: past) := by
  unfold retryOrFail
  by_cases hattempts : claim.attemptCount < MAX_ATTEMPTS
  · simp only [hattempts]
    refine ⟨⟨by simp [ProcessRequest.claim?], trivial⟩, fun answer _ => ?_⟩
    cases answer with
    | error e' => trivial
    | ok now =>
        exact ⟨⟨by simp [ProcessRequest.claim?], now, request, e, past, rfl, rfl, rfl, he,
          hattempts⟩, fun _ _ => trivial⟩
  · simp only [hattempts]
    exact ⟨⟨by simp [ProcessRequest.claim?], request, e, past, rfl, rfl, rfl,
      .inl ⟨he, not_lt.mp hattempts⟩⟩, fun _ _ => trivial⟩

/-- The `catch` blocks, after an exception that was thrown by the last request. -/
theorem along_handle {request : ProcessRequest} (e : Failure) :
    Program.along (fun _ _ => True) (ProcessReports claim) (handle claim e) (fun _ _ => True)
      (⟨request, .error e⟩ :: past) := by
  cases e with
  | extraction message => exact along_retryOrFail rfl
  | receiptImageStorage message retryable =>
      cases retryable with
      | true => exact along_retryOrFail rfl
      | false =>
          exact ⟨⟨by simp [ProcessRequest.claim?], request, _, past, rfl, rfl, rfl, .inr rfl⟩,
            fun _ _ => trivial⟩
  | receiptImageNotFound =>
      exact ⟨⟨by simp [ProcessRequest.claim?], request, _, past, rfl, rfl, rfl, .inr rfl⟩,
        fun _ _ => trivial⟩
  | _ => trivial

theorem along_extractInspected (image : List UInt8) (quality : ImageQualityResult) :
    Program.along (fun _ _ => True) (ProcessReports claim)
      ((extractInspected claim image quality).tryCatch (handle claim)) (fun _ _ => True) past := by
  unfold extractInspected
  by_cases hquality : quality.status ≠ .acceptable
  · rw [if_pos hquality]
    refine ⟨⟨by simp [ProcessRequest.claim?], trivial⟩, fun answer _ => ?_⟩
    cases answer with
    | error e => exact along_handle e
    | ok receipt => trivial
  · rw [if_neg hquality]
    refine ⟨⟨by simp [ProcessRequest.claim?], trivial⟩, fun answer _ => ?_⟩
    cases answer with
    | error e => exact along_handle e
    | ok extraction =>
        refine ⟨⟨by simp [ProcessRequest.claim?], trivial⟩, fun answer _ => ?_⟩
        cases answer with
        | error e => exact along_handle e
        | ok extractedAt =>
            refine ⟨⟨by simp [ProcessRequest.claim?], trivial⟩, fun answer _ => ?_⟩
            cases answer with
            | error e => exact along_handle e
            | ok receipt => trivial

/-- Every request of `process` is one that its transcript explains. -/
theorem along_process_reports (claim : ClaimedReceiptJob) :
    Program.along (fun _ _ => True) (ProcessReports claim) (process claim) (fun _ _ => True)
      [] := by
  refine ⟨⟨by simp [ProcessRequest.claim?], trivial⟩, fun answer _ => ?_⟩
  cases answer with
  | error e => exact along_handle e
  | ok image =>
      refine ⟨⟨by simp [ProcessRequest.claim?], trivial⟩, fun answer _ => ?_⟩
      cases answer with
      | error e => exact along_handle e
      | ok quality => exact along_extractInspected image quality

theorem along_process (claim : ClaimedReceiptJob) :
    Program.along (fun _ _ => True) (ProcessAllows claim) (process claim) (fun _ _ => True) [] :=
  Program.along_imp (along_process_reports claim) (fun _ _ _ hreports => hreports.allows)
    fun _ _ _ _ => trivial

end Process

/-! ## What a step of the workers does -/

/-- The effect of a step on the run and on the started claims. -/
inductive WorkerStep (P : Platform) (employees : Table Employee) (pool pool' : WorkerPool) : Prop
  | quiet : pool'.shared = pool.shared → WorkerStep P employees pool pool'
  | started (claim : ClaimedReceiptJob) : pool.threads claim = none →
      HandedOut pool.shared.trace claim →
      pool'.shared = { pool.shared with started := claim :: pool.shared.started } →
      WorkerStep P employees pool pool'
  | other (commit : Commit) :
      pool'.shared = { pool.shared with trace := commit :: pool.shared.trace } →
      (Run P employees pool.shared.trace → Run P employees (commit :: pool.shared.trace)) →
      commit.operation.isOfProcess = false →
      (∀ claim, commit.operation.claim? = some claim →
        HandedOut pool.shared.trace claim ∧ claim ∉ pool.shared.started) →
      commit.DrawsFresh pool.shared.trace → WorkerStep P employees pool pool'
  | served (commit : Commit) (claim : ClaimedReceiptJob)
      (past : Transcript ProcessRequest ProcessRequest.Answer) (request : ProcessRequest) :
      pool'.shared = { pool.shared with trace := commit :: pool.shared.trace } →
      (Run P employees pool.shared.trace → Run P employees (commit :: pool.shared.trace)) →
      (∃ rest, pool.threads claim = some ⟨past, rest⟩) →
      ProcessAllows claim past request → request.Runs commit.operation →
      commit.operation.claim? = some claim → WorkerStep P employees pool pool'

theorem ProcessRequest.claim?_isSome_of_runs {request : ProcessRequest} {operation : Operation}
    (h : request.Runs operation) : ∃ claim, request.claim? = some claim := by
  cases request <;> first | exact h.elim | exact ⟨_, rfl⟩

theorem WorkerRun.step_cases (h : WorkerRun P employees pool)
    (hstep : Pool.Step (workerRules P employees) pool pool') :
    WorkerStep P employees pool pool' := by
  cases hstep with
  | others hothers =>
      obtain ⟨⟨operation, reply, hother, hpermitted, hextends, hrelease⟩, hfresh, hstarted⟩ :=
        hothers
      have hrun := fun hrun => hextends.run hrun hpermitted
      obtain ⟨commit, htrace, rfl, -⟩ := hextends.exists_cons
      exact .other commit (WorkerState.ext htrace hstarted) (htrace ▸ hrun) hother hrelease
        (hfresh commit htrace)
  | @start claim s' hnone hstarts =>
      obtain ⟨hhanded, -, rfl⟩ := hstarts
      exact .started claim hnone hhanded rfl
  | die _ hdies => exact .quiet hdies
  | @serve claim past request next answer s' hthread hserves =>
      have hallowed := Pool.Run.allowed h (fun _ _ _ _ _ _ => trivial) (along_process _) hthread
      unfold workerRules WorkerState.Serves at hserves
      -- queries and failed requests commit nothing
      cases answer with
      | error e => exact .quiet hserves
      | ok result =>
          cases hreply : request.reply? result with
          | none =>
              simp only [hreply] at hserves
              exact .quiet hserves
          | some reply =>
              simp only [hreply] at hserves
              obtain ⟨⟨operation, hruns, hextends⟩, hstarted⟩ := hserves
              have hrun := fun hrun =>
                hextends.run hrun (ProcessRequest.permitted_of_runs hruns)
              obtain ⟨commit, htrace, rfl, -⟩ := hextends.exists_cons
              obtain ⟨other, hother⟩ := ProcessRequest.claim?_isSome_of_runs hruns
              obtain rfl := hallowed.1 other hother
              exact .served commit other past request (WorkerState.ext htrace hstarted)
                (htrace ▸ hrun) ⟨_, hthread⟩ hallowed hruns
                ((ProcessRequest.claim?_of_runs hruns).trans hother)

/-- A step adds at most one commit to the history. -/
theorem WorkerRun.trace_cases (h : WorkerRun P employees pool)
    (hstep : Pool.Step (workerRules P employees) pool pool') :
    pool'.shared.trace = pool.shared.trace ∨
      ∃ commit, pool'.shared.trace = commit :: pool.shared.trace := by
  cases h.step_cases hstep with
  | quiet hsame => exact .inl (congrArg WorkerState.trace hsame)
  | started _ _ _ hshared => exact .inl (by rw [hshared])
  | other commit hshared | served commit _ _ _ hshared =>
      exact .inr ⟨commit, congrArg WorkerState.trace hshared⟩

/-- A transaction of `process` was requested by the thread of its claim. -/
theorem WorkerRun.served_by (h : WorkerRun P employees pool)
    (hstep : Pool.Step (workerRules P employees) pool pool')
    (htrace : pool'.shared.trace = commit :: pool.shared.trace)
    (hof : commit.operation.isOfProcess = true) :
    ∃ claim past request answer rest, pool.threads claim = some ⟨past, rest⟩ ∧
      pool'.past claim = ⟨request, answer⟩ :: past ∧ ProcessReports claim past request ∧
      request.Runs commit.operation := by
  have hchanged : pool'.shared.trace ≠ pool.shared.trace := by
    rw [htrace]
    exact List.cons_ne_self _ _
  cases hstep with
  | others hothers =>
      -- what the others commit is no transaction of `process`
      obtain ⟨⟨operation, reply, hother, -, hextends, -⟩, -⟩ := hothers
      obtain ⟨other, htrace', rfl, -⟩ := hextends.exists_cons
      obtain ⟨rfl, -⟩ := List.cons.inj (htrace.symm.trans htrace')
      exact absurd (hof.symm.trans hother) (by simp)
  | @start claim s' hnone hstarts =>
      obtain ⟨-, -, rfl⟩ := hstarts
      exact absurd rfl hchanged
  | die _ hdies => exact absurd (congrArg WorkerState.trace hdies) hchanged
  | @serve claim past request next answer s' hthread hserves =>
      have hreports :=
        Pool.Run.allowed h (fun _ _ _ _ _ _ => trivial) (along_process_reports _) hthread
      unfold workerRules WorkerState.Serves at hserves
      refine ⟨claim, past, request, answer, _, hthread, Pool.past_update_self .., hreports, ?_⟩
      -- only an answered transaction commits; it runs what was requested
      cases answer with
      | error e => exact absurd (congrArg WorkerState.trace hserves) hchanged
      | ok result =>
          cases hreply : request.reply? result with
          | none =>
              simp only [hreply] at hserves
              exact absurd (congrArg WorkerState.trace hserves) hchanged
          | some reply =>
              simp only [hreply] at hserves
              obtain ⟨⟨operation, hruns, hextends⟩, -⟩ := hserves
              obtain ⟨other, htrace', rfl, -⟩ := hextends.exists_cons
              obtain ⟨rfl, -⟩ := List.cons.inj (htrace.symm.trans htrace')
              exact hruns

/-! ## What holds of every reachable pool -/

theorem WorkerState.Serves.started {request : ProcessRequest} {answer : request.Answer}
    (h : WorkerState.Serves P employees s request answer s') : s'.started = s.started := by
  unfold WorkerState.Serves at h
  split at h
  · rw [h]
  · split at h
    · rw [h]
    · exact h.2

/-- The started claims are those that have a thread. -/
theorem WorkerRun.mem_started (h : WorkerRun P employees pool) (claim : ClaimedReceiptJob) :
    claim ∈ pool.shared.started ↔ pool.threads claim ≠ none := by
  induction h with
  | initial => simp [Pool.initial]
  | @step pool _ _ hstep ih =>
      have hupdate : ∀ (s' : WorkerState) {other thread}, s'.started = pool.shared.started →
          pool.threads other ≠ none →
          (claim ∈ s'.started ↔ (pool.update s' other thread).threads claim ≠ none) := by
        intro s' other thread hstarted hother
        rw [hstarted]
        by_cases hsame : claim = other
        · subst hsame
          simp [ih, hother]
        · rw [Pool.threads_update_of_ne _ _ hsame]
          exact ih
      cases hstep with
      | others hothers =>
          show claim ∈ WorkerState.started _ ↔ _
          rw [hothers.2.2]
          exact ih
      | @start other _ hnone hstarts =>
          obtain ⟨-, -, rfl⟩ := hstarts
          by_cases hsame : claim = other
          · subst hsame
            simp
          · rw [Pool.threads_update_of_ne _ _ hsame, ← ih]
            simp [hsame]
      | serve hthread hserves =>
          exact hupdate _ (WorkerState.Serves.started hserves) (by rw [hthread]; simp)
      | die hthread hdies =>
          exact hupdate _ (congrArg WorkerState.started hdies) (by rw [hthread]; simp)

/-- The run is disciplined, each claim is started at most once after it was handed
out, and every retry was scheduled below the limit of attempts. -/
structure Supervised (P : Platform) (employees : Table Employee) (s : WorkerState) : Prop where
  run : Run P employees s.trace
  disciplined : Disciplined s.trace
  nodup : s.started.Nodup
  handed : ∀ claim ∈ s.started, HandedOut s.trace claim
  retries : ∀ commit ∈ s.trace, ∀ claim errorCode errorMessage retryAt now,
    commit.operation = .scheduleRetry claim errorCode errorMessage retryAt now →
    claim.attemptCount < MAX_ATTEMPTS

/-- One commit keeps the run supervised. -/
theorem Supervised.cons (h : Supervised P employees s)
    (hrun : Run P employees (commit :: s.trace)) (hfresh : commit.DrawsFresh s.trace)
    (hclaim : ∀ claim, commit.operation.claim? = some claim → HandedOut s.trace claim)
    (hretry : ∀ claim errorCode errorMessage retryAt now,
      commit.operation = .scheduleRetry claim errorCode errorMessage retryAt now →
      claim.attemptCount < MAX_ATTEMPTS) :
    Supervised P employees ⟨commit :: s.trace, s.started⟩ where
  run := hrun
  disciplined := h.disciplined.cons hfresh hclaim
  nodup := h.nodup
  handed claim hmem := (h.handed claim hmem).cons
  retries := List.forall_mem_cons.mpr ⟨hretry, h.retries⟩

theorem Run.drawsFresh_of_claim? (h : Run P employees (commit :: trace))
    (hclaim : commit.operation.claim? = some claim) : commit.DrawsFresh trace := by
  rcases h.handedOut with hnone | ⟨htakes, -⟩
  · simp [Commit.DrawsFresh, hnone]
  · rw [ends_of_claim? hclaim] at htakes
    exact absurd htakes (by simp)

theorem WorkerRun.supervised (h : WorkerRun P employees pool) :
    Supervised P employees pool.shared := by
  induction h with
  | initial => exact ⟨.nil, trivial, .nil, by simp [Pool.initial], by simp [Pool.initial]⟩
  | @step pool pool' hrun hstep ih =>
      have hmove := WorkerRun.step_cases hrun hstep
      cases hmove with
      | quiet hsame =>
          rw [hsame]
          exact ih
      | started claim hnone hhanded hshared =>
          have hnew := (WorkerRun.mem_started hrun claim).not.mpr (not_not.mpr hnone)
          rw [hshared]
          exact ⟨ih.run, ih.disciplined, List.nodup_cons.mpr ⟨hnew, ih.nodup⟩,
            List.forall_mem_cons.mpr ⟨hhanded, ih.handed⟩, ih.retries⟩
      | other commit hshared hextends hother hrelease hfresh =>
          rw [hshared]
          refine ih.cons (hextends ih.run) hfresh (fun claim hclaim => (hrelease claim hclaim).1) ?_
          intro claim errorCode errorMessage retryAt now hretry
          -- only a running thread schedules a retry
          rw [hretry] at hother
          exact absurd hother (by simp [Operation.isOfProcess])
      | served commit claim past request hshared hextends hthread hallowed hruns hclaim =>
          have hhanded : HandedOut pool.shared.trace claim := by
            obtain ⟨rest, hthread⟩ := hthread
            refine ih.handed claim ((WorkerRun.mem_started hrun claim).mpr ?_)
            rw [hthread]
            simp
          rw [hshared]
          refine ih.cons (hextends ih.run) ((hextends ih.run).drawsFresh_of_claim? hclaim) ?_ ?_
          · intro other hother
            rw [hclaim] at hother
            cases hother
            exact hhanded
          · intro other errorCode errorMessage retryAt now hretry
            rw [hretry] at hruns hclaim
            obtain rfl := ProcessRequest.eq_scheduleRetry hruns
            cases hclaim
            exact hallowed.2

/-- A run without transactions of a `process` is a run of the workers in which no
thread has started yet. -/
theorem workerRun_of_run (h : Run P employees trace) (hdisciplined : Disciplined trace)
    (hothers : ∀ commit ∈ trace, commit.operation.isOfProcess = false) :
    WorkerRun P employees (.initial ⟨trace, []⟩) := by
  induction h with
  | nil => exact .initial
  | @commit trace operation reply changes snapshot after _ hpermitted hsnapshot hbody hcommit ih =>
      obtain ⟨hearlier, hcalled, hfresh⟩ := hdisciplined
      obtain ⟨hother, hothers⟩ := List.forall_mem_cons.mp hothers
      have hlast : WorkerState.Others P employees ⟨trace, []⟩
          ⟨{ operation, reply, changes, before := current employees trace, after } :: trace,
            []⟩ := by
        refine ⟨⟨operation, reply, hother, hpermitted, ?_, fun claim hclaim => ?_⟩, ?_, rfl⟩
        · exact ⟨snapshot, hsnapshot, changes, after, hbody, hcommit, rfl⟩
        · exact ⟨hcalled claim hclaim, by simp⟩
        · rintro commit ⟨⟩
          exact hfresh
      exact .step (ih hearlier hothers) (.others hlast)

end ReceiptReview
