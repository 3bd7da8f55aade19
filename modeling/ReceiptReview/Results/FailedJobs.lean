import ReceiptReview.Results.Attempts

/-!
# Attempts of failed jobs

The attempts that are counted when a job fails are its claims, not the runs of
`process` for it.  Each claim was started, is still live, or was put back by a
release or by the recovery of its lease (`WorkerRun.settled`).  When a job fails
its live claim is running, so the missing runs are those of the claims that were
put back before they were started (`WorkerState.Lost`).
-/

namespace ReceiptReview

open Java Store ReceiptCase ReceiptExtractionProcessor

variable {P : Platform} {employees : Table Employee} {pool pool' : WorkerPool}
variable {trace : List Commit} {commit : Commit} {claim : ClaimedReceiptJob}
variable {operation : Operation} {x x' : ReceiptCase} {events : List AuditEvent}

/-! ## Claims that are lost -/

/-- The claims of the job whose `process` was started. -/
def WorkerState.startsOf (s : WorkerState) (jobId : Long) : ℕ :=
  s.started.countP (·.jobId = jobId)

/-- The operations that put back a job without a failure of its worker. -/
def Operation.recalls : Operation → Bool
  | release .. | recoverExpired .. => true
  | _ => false

/-- The commit puts back the job that is held under this claim. -/
def Commit.Recalls (commit : Commit) (claim : ClaimedReceiptJob) : Prop :=
  commit.operation.recalls = true ∧ (∃ written ∈ commit.changes.jobs, written.id = claim.jobId) ∧
    ∃ job ∈ commit.before.findJob claim.jobId, job.claimToken = claim.claimToken

/-- The job of the claim was put back, and `process` has not been started for the claim. -/
def WorkerState.Lost (s : WorkerState) (claim : ClaimedReceiptJob) : Prop :=
  claim ∉ s.started ∧ ∃ commit ∈ s.trace, commit.Recalls claim

instance (commit : Commit) (claim : ClaimedReceiptJob) : Decidable (commit.Recalls claim) :=
  inferInstanceAs (Decidable (_ ∧ _))

instance (s : WorkerState) (claim : ClaimedReceiptJob) : Decidable (s.Lost claim) :=
  inferInstanceAs (Decidable (_ ∧ _))

/-- The number of claims of the job that are lost. -/
def WorkerState.lostOf (s : WorkerState) (jobId : Long) : ℕ :=
  (handedOut s.trace).countP fun claim => claim.jobId = jobId ∧ s.Lost claim

/-- No claim is handed out twice. -/
theorem Disciplined.nodup_handedOut (h : Disciplined trace) : (handedOut trace).Nodup := by
  induction trace with
  | nil => exact .nil
  | cons commit trace ih =>
      obtain ⟨hearlier, -, hnodup, hfresh⟩ := h
      refine List.nodup_append.mpr ⟨hnodup.of_map _, ih hearlier, ?_⟩
      rintro claim hnew _ hold rfl
      exact hfresh claim hnew claim (mem_handedOut.mp hold) rfl

/-- A live claim stays alive, unless the commit ends it. -/
theorem Run.live_or_ended (h : Run P employees (commit :: trace)) (hlive : Live trace claim) :
    Live (commit :: trace) claim ∨ commit.operation.ownership = .ends ∧
      (∃ written ∈ commit.changes.jobs, written.id = claim.jobId) ∧
      ∃ job ∈ commit.before.findJob claim.jobId, job.claimToken = claim.claimToken := by
  obtain ⟨x, hx, hid, -, howned⟩ := h.head.1.held.owns hlive
  obtain ⟨hprocessing, -, htoken⟩ := ReceiptExtractionJob.isOwnedBy_iff.mp howned
  rcases h.kept_or_updated hx with ⟨-, -, huntouched⟩ | ⟨-, hstep⟩
  · exact .inl (h.live_of_kept hlive (.inr (hid ▸ huntouched)))
  · cases hstep.ownership with
    | taken _ hwaiting => exact absurd hprocessing hwaiting
    | kept hkeeps => exact .inl (h.live_of_kept hlive (.inl hkeeps))
    | ended hends _ _ hversion =>
        have hchanged : (x.updated commit.changes).job.version ≠ x.job.version := by omega
        obtain ⟨written, hmem, hwritten, -⟩ := exists_written_job hchanged
        refine .inr ⟨hends, ⟨written, hmem, hwritten.trans hid⟩, x.job, ?_, htoken⟩
        rw [h.head.2.1, ← hid]
        exact hx.job

theorem recalls_of_ends (hends : operation.ownership = .ends)
    (hother : operation.isOfProcess = false) : operation.recalls = true := by
  cases operation with
  | release | recoverExpired => rfl
  | completeQualityRejection | completeExtraction | scheduleRetry | failExtraction =>
      exact absurd hother (by simp [Operation.isOfProcess])
  | _ => exact absurd hends (by simp [Operation.ownership])

/-- The claim was started, is live, or was recalled. -/
def WorkerState.Settles (s : WorkerState) (claim : ClaimedReceiptJob) : Prop :=
  claim ∈ s.started ∨ Live s.trace claim ∨ ∃ commit ∈ s.trace, commit.Recalls claim

/-- A commit settles all claims, if it ends no claim that is neither started nor recalled. -/
theorem WorkerState.Settles.cons {s : WorkerState} (h : Run P employees (commit :: s.trace))
    (hclaim : HandedOut (commit :: s.trace) claim)
    (hsettled : HandedOut s.trace claim → s.Settles claim)
    (hends : Live s.trace claim → commit.operation.ownership = .ends →
      (∃ written ∈ commit.changes.jobs, written.id = claim.jobId) →
      claim ∈ s.started ∨ commit.operation.recalls = true) :
    WorkerState.Settles ⟨commit :: s.trace, s.started⟩ claim := by
  obtain ⟨by_, hmem, hby⟩ := hclaim
  rcases List.mem_cons.mp hmem with rfl | hmem
  · exact .inr (.inl (.inl hby))
  · rcases hsettled ⟨by_, hmem, hby⟩ with hstarted | hlive | ⟨earlier, hearlier, hrecalls⟩
    · exact .inl hstarted
    · rcases h.live_or_ended hlive with hlive' | ⟨hended, hwritten, hjob⟩
      · exact .inr (.inl hlive')
      · rcases hends hlive hended hwritten with hstarted | hrecalls
        · exact .inl hstarted
        · exact .inr (.inr ⟨commit, List.mem_cons_self, hrecalls, hwritten, hjob⟩)
    · exact .inr (.inr ⟨earlier, List.mem_cons_of_mem _ hearlier, hrecalls⟩)

/-- Every claim that was handed out is settled. -/
theorem WorkerRun.settled (h : WorkerRun P employees pool) {claim : ClaimedReceiptJob}
    (hclaim : HandedOut pool.shared.trace claim) : pool.shared.Settles claim := by
  induction h with
  | initial =>
      obtain ⟨_, hmem, -⟩ := hclaim
      exact absurd hmem (by simp [Pool.initial])
  | @step pool pool' hrun hstep ih =>
      have hsupervised := WorkerRun.supervised hrun
      cases WorkerRun.step_cases hrun hstep with
      | quiet hsame =>
          rw [hsame] at hclaim ⊢
          exact ih hclaim
      | started other _ _ hshared =>
          rw [hshared] at hclaim ⊢
          exact (ih hclaim).imp_left (List.mem_cons_of_mem _)
      | other commit hshared hextends hother =>
          rw [hshared] at hclaim ⊢
          refine .cons (hextends hsupervised.run) hclaim ih ?_
          intro _ hends _
          exact .inr (recalls_of_ends hends hother)
      | served commit other past request hshared hextends hthread hallowed hruns hother =>
          have hnext := hextends hsupervised.run
          have hdisciplined := (WorkerRun.supervised (.step hrun hstep)).disciplined
          rw [hshared] at hclaim hdisciplined ⊢
          refine .cons hnext hclaim ih ?_
          -- the thread ends its own claim, which has been started
          intro hlive _ hwritten
          obtain ⟨written, hmem, hwritten⟩ := hwritten
          obtain ⟨-, -, -, -, _, -, hbody⟩ := hnext.head
          obtain ⟨-, job, hjobs, hjobId⟩ := jobs_of_claim? hbody hother
          rw [hjobs, List.mem_singleton] at hmem
          obtain rfl := hsupervised.run.live_unique hsupervised.disciplined hlive
            (hnext.live_of_claim? hdisciplined hother) (by rw [← hwritten, hmem, hjobId])
          obtain ⟨rest, hthread⟩ := hthread
          refine .inl ((WorkerRun.mem_started hrun claim).mpr ?_)
          rw [hthread]
          simp

/-- A claim was started or it was lost, unless it is waiting to be started. -/
theorem Supervised.claimsOf_eq {s : WorkerState} (h : Supervised P employees s) {jobId : Long}
    (hsettled : ∀ claim, HandedOut s.trace claim → claim.jobId = jobId →
      claim ∈ s.started ∨ s.Lost claim) :
    claimsOf s.trace jobId = s.startsOf jobId + s.lostOf jobId := by
  have hstarted : ((handedOut s.trace).filter (· ∈ s.started)).Perm s.started := by
    refine (List.perm_ext_iff_of_nodup (h.disciplined.nodup_handedOut.filter _) h.nodup).mpr ?_
    intro claim
    rw [List.mem_filter, decide_eq_true_iff, and_iff_right_iff_imp]
    exact fun hmem => mem_handedOut.mpr (h.handed claim hmem)
  have hsplit := List.countP_eq_countP_filter_add (handedOut s.trace)
    (fun claim => decide (claim.jobId = jobId)) (fun claim => decide (claim ∈ s.started))
  rw [claimsOf, hsplit, hstarted.countP_eq, WorkerState.startsOf, WorkerState.lostOf]
  congr 1
  rw [List.countP_filter]
  refine List.countP_congr fun claim hclaim => ?_
  rw [Bool.and_eq_true, decide_eq_true_iff, decide_eq_true_iff, Bool.not_eq_true',
    decide_eq_false_iff_not]
  constructor
  · intro hboth
    obtain ⟨hid, hnot⟩ := hboth
    exact ⟨hid, (hsettled claim (mem_handedOut.mp hclaim) hid).resolve_left hnot⟩
  · intro hboth
    obtain ⟨hid, hlost⟩ := hboth
    exact ⟨hid, hlost.1⟩

/-! ## A job that fails -/

/-- The job becomes `FAILED`. -/
def JobFails (employees : Table Employee) (pool pool' : WorkerPool) (jobId : Long) : Prop :=
  ∃ job job', (current employees pool.shared.trace).findJob jobId = some job ∧
    job.status ≠ .failed ∧ (current employees pool'.shared.trace).findJob jobId = some job' ∧
    job'.status = .failed

/-- An exception of the storage or of the extractor is one that is retried; no
other collaborator throws those of the storage that are not. -/
def RetryableFailure (exchange : Exchange ProcessRequest ProcessRequest.Answer) : Prop :=
  ∀ e, exchange.answer = .error e →
    match exchange.request with
    | .load _ | .extract _ => e.isRetryable = true
    | _ => e.isFatal = false

/-- Every failure so far of the runs of `process` for the job is retryable. -/
def OnlyRetryable (pool : WorkerPool) (jobId : Long) : Prop :=
  ∀ claim thread, pool.threads claim = some thread → claim.jobId = jobId →
    ∀ exchange ∈ thread.past, RetryableFailure exchange

theorem isFatal_of_isRetryable {e : Failure} (h : e.isRetryable = true) : e.isFatal = false := by
  cases e with
  | receiptImageStorage message retryable =>
      cases retryable with
      | true => rfl
      | false => exact absurd h (by simp [Failure.isRetryable])
  | receiptImageNotFound => exact absurd h (by simp [Failure.isRetryable])
  | _ => rfl

theorem not_failedFatally {past : Transcript ProcessRequest ProcessRequest.Answer}
    (h : ∀ exchange ∈ past, RetryableFailure exchange) : ¬ FailedFatally past := by
  intro hfatally
  obtain ⟨exchange, hmem, e, hanswer, hfatal⟩ := hfatally
  have hretryable := h exchange hmem e hanswer
  have hnot : e.isFatal = false := by
    split at hretryable <;> first | exact isFatal_of_isRetryable hretryable | exact hretryable
  rw [hnot] at hfatal
  exact absurd hfatal (by simp)

/-- Only `failExtraction` lets a job fail. -/
theorem ReceiptCase.Step.of_failed (h : Step employees operation x events x')
    (hx : x.job.status ≠ .failed) (hx' : x'.job.status = .failed) :
    ∃ claim errorCode errorMessage now,
      operation = .failExtraction claim errorCode errorMessage now := by
  cases h with
  | failed => exact ⟨_, _, _, _, rfl⟩
  | claimed hclaim =>
      rw [(ReceiptExtractionJob.claim_eq_ok hclaim).2] at hx'
      exact absurd hx' (by simp [ReceiptExtractionJob.flushed])
  | released _ hrelease =>
      rw [(ReceiptExtractionJob.releaseClaim_eq_ok hrelease).2] at hx'
      exact absurd hx' (by simp [ReceiptExtractionJob.flushed])
  | recovered hrecover =>
      rw [(ReceiptExtractionJob.recoverExpiredLease_eq_ok hrecover).2.2] at hx'
      exact absurd hx' (by simp [ReceiptExtractionJob.flushed])
  | qualityRejected _ _ hcomplete | extracted _ _ hcomplete =>
      rw [(ReceiptExtractionJob.complete_eq_ok hcomplete).2] at hx'
      exact absurd hx' (by simp [ReceiptExtractionJob.flushed])
  | retryScheduled _ _ hretry =>
      rw [(ReceiptExtractionJob.scheduleRetry_eq_ok hretry).2] at hx'
      exact absurd hx' (by simp [ReceiptExtractionJob.flushed])
  | duplicateDeferred | duplicateMarked | corrected | decided => exact absurd hx' hx

/-- A commit that fails a job is a `failExtraction`. -/
theorem Run.failed_commit (h : Run P employees (commit :: trace))
    (hx : (current employees trace).HasCase x) (hnot : x.job.status ≠ .failed)
    {job : ReceiptExtractionJob} (hjob : commit.after.findJob x.job.id = some job)
    (hfailed : job.status = .failed) :
    Step employees commit.operation x (eventsFor x.receipt.id commit.changes.events)
        (x.updated commit.changes) ∧
      ∃ claim errorCode errorMessage now,
        commit.operation = .failExtraction claim errorCode errorMessage now := by
  rcases h.kept_or_updated hx with ⟨hafter, -, -⟩ | ⟨hafter, hmoved⟩
  · cases hafter.job.symm.trans hjob
    exact absurd hfailed hnot
  · rw [← hmoved.sameJob.id] at hjob
    cases hafter.job.symm.trans hjob
    exact ⟨hmoved, hmoved.of_failed hnot hfailed⟩

/-- A job fails through the `failExtraction` of the thread whose claim it is held under. -/
theorem WorkerRun.failed_by (h : WorkerRun P employees pool)
    (hstep : Pool.Step (workerRules P employees) pool pool') {jobId : Long}
    (hfails : JobFails employees pool pool' jobId) :
    ∃ x commit claim past rest errorCode errorMessage answer,
      (current employees pool.shared.trace).HasCase x ∧ x.job.id = jobId ∧
      pool'.shared = { pool.shared with trace := commit :: pool.shared.trace } ∧
      pool.threads claim = some ⟨past, rest⟩ ∧
      pool'.past claim = ⟨.failExtraction claim errorCode errorMessage, answer⟩ :: past ∧
      ProcessReports claim past (.failExtraction claim errorCode errorMessage) ∧
      Live pool.shared.trace claim ∧ claim.jobId = jobId := by
  have hrun := h.supervised.run
  obtain ⟨job, job', hjob, hnot, hjob', hfailed⟩ := hfails
  obtain ⟨x, hx, rfl⟩ := hrun.current_refines.paired.of_job hjob
  obtain rfl : x.job.id = jobId := Database.id_of_findJob hjob
  have hchanged : pool'.shared.trace ≠ pool.shared.trace := by
    intro hsame
    rw [hsame, hjob] at hjob'
    cases hjob'
    exact hnot hfailed
  cases h.step_cases hstep with
  | quiet hsame => exact absurd (by rw [hsame]) hchanged
  | started claim _ _ hshared => exact absurd (by rw [hshared]) hchanged
  | other commit hshared hextends hother _ _ =>
      -- nobody else reports a failure
      rw [hshared] at hjob'
      obtain ⟨-, _, _, _, _, hoperation⟩ := (hextends hrun).failed_commit hx hnot hjob' hfailed
      rw [hoperation] at hother
      exact absurd hother (by simp [Operation.isOfProcess])
  | served commit _ _ _ hshared hextends =>
      rw [hshared] at hjob'
      obtain ⟨hmoved, other, errorCode, errorMessage, now, hoperation⟩ :=
        (hextends hrun).failed_commit hx hnot hjob' hfailed
      obtain ⟨claim, past, request, answer, rest, hthread, hpast, hreports, hruns⟩ :=
        h.served_by hstep (congrArg WorkerState.trace hshared) (by rw [hoperation]; rfl)
      rw [hoperation] at hruns
      obtain rfl := ProcessRequest.eq_failExtraction hruns
      obtain rfl := hreports.1 other rfl
      have hclaim : commit.operation.claim? = some other := by rw [hoperation]; rfl
      have hnext : WorkerRun P employees pool' := Pool.Run.step h hstep
      have hdisciplined := hnext.supervised.disciplined
      rw [hshared] at hdisciplined
      refine ⟨x, commit, other, past, rest, errorCode, errorMessage, answer, hx, rfl, hshared,
        hthread, hpast, hreports, (hextends hrun).live_of_claim? hdisciplined hclaim, ?_⟩
      -- the commit ends a claim, so the job was held under that very claim
      cases hmoved.ownership with
      | taken hends | kept hends =>
          exact absurd (hends.symm.trans (ends_of_claim? hclaim)) (by simp)
      | ended _ _ _ _ howned => exact (howned other hclaim).1

/-- A job that fails is at the limit, if all its failures are retryable, and each of
its claims was started or lost. -/
theorem WorkerRun.claimsOf_of_failed (h : WorkerRun P employees pool)
    (hstep : Pool.Step (workerRules P employees) pool pool') {jobId : Long}
    (hretryable : OnlyRetryable pool jobId) (hfails : JobFails employees pool pool' jobId) :
    MAX_ATTEMPTS ≤ claimsOf pool.shared.trace jobId ∧
      claimsOf pool.shared.trace jobId =
        pool'.shared.startsOf jobId + pool.shared.lostOf jobId := by
  obtain ⟨x, commit, claim, past, rest, errorCode, errorMessage, -, hx, hxid, hshared, hthread, -,
    hreports, hlive, hid⟩ := h.failed_by hstep hfails
  constructor
  · calc MAX_ATTEMPTS
        ≤ claim.attemptCount :=
          hreports.allows.2.resolve_right (not_failedFatally (hretryable claim _ hthread hid))
      _ = x.job.attemptCount :=
          h.supervised.run.attemptCount_of_live hlive hx (hxid.trans hid.symm)
      _ = claimsOf pool.shared.trace jobId := by rw [h.supervised.run.attemptCount_eq hx, hxid]
  · rw [hshared]
    refine h.supervised.claimsOf_eq fun other hother hotherId => ?_
    by_cases hstarted : other ∈ pool.shared.started
    · exact .inl hstarted
    · rcases h.settled hother with hmem | hotherLive | hrecalled
      · exact .inl hmem
      · -- the claim of the thread is the live one
        obtain rfl := h.supervised.run.live_unique h.supervised.disciplined hotherLive hlive
          (hotherId.trans hid.symm)
        refine .inl ((h.mem_started other).mpr ?_)
        rw [hthread]
        simp
      · exact .inr ⟨hstarted, hrecalled⟩

/-- The step hands back this claim. -/
def HandsBack (pool pool' : WorkerPool) (claim : ClaimedReceiptJob) : Prop :=
  ∃ commit now, pool'.shared.trace = commit :: pool.shared.trace ∧
    commit.operation = .release claim now

/-- A claim that is handed back stays counted. -/
theorem WorkerRun.attemptCount_of_handsBack (h : WorkerRun P employees pool)
    (hstep : Pool.Step (workerRules P employees) pool pool') (hback : HandsBack pool pool' claim) :
    ∃ job, (current employees pool'.shared.trace).findJob claim.jobId = some job ∧
      job.attemptCount = claim.attemptCount := by
  obtain ⟨commit, now, htrace, hoperation⟩ := hback
  have hclaim : commit.operation.claim? = some claim := by rw [hoperation]; rfl
  have hnext : WorkerRun P employees pool' := Pool.Run.step h hstep
  have hrun' := hnext.supervised.run
  have hdisciplined := hnext.supervised.disciplined
  rw [htrace] at hrun' hdisciplined ⊢
  obtain ⟨x, hx, hid, -, hafter, hmoved, -⟩ := hrun'.step_of_claim? hclaim
  refine ⟨(x.updated commit.changes).job, ?_, ?_⟩
  · rw [← hid, ← hmoved.sameJob.id]
    exact hafter.job
  · rw [hmoved.attemptCount, if_neg (by rw [hoperation]; simp [Operation.ownership]), Nat.add_zero]
    exact (h.supervised.run.attemptCount_of_live (hrun'.live_of_claim? hdisciplined hclaim) hx
      hid).symm

/-- The law of attempts in one step: a job that fails has been run `MAX_ATTEMPTS`
times, and a claim that is handed back is taken off the count. -/
structure AttemptsKept (employees : Table Employee) (pool pool' : WorkerPool) (jobId : Long) :
    Prop where
  failed : JobFails employees pool pool' jobId → MAX_ATTEMPTS ≤ pool'.shared.startsOf jobId
  handedBack : ∀ claim job, HandsBack pool pool' claim → claim.jobId = jobId →
    (current employees pool'.shared.trace).findJob jobId = some job →
    job.attemptCount + 1 = claim.attemptCount

/-- A claim that is handed back is lost. -/
theorem WorkerRun.lost_of_handsBack (h : WorkerRun P employees pool)
    (hstep : Pool.Step (workerRules P employees) pool pool') (hback : HandsBack pool pool' claim) :
    pool'.shared.Lost claim := by
  obtain ⟨commit, now, htrace, hoperation⟩ := hback
  have hclaim : commit.operation.claim? = some claim := by rw [hoperation]; rfl
  have hnext : WorkerRun P employees pool' := Pool.Run.step h hstep
  have hrun' := hnext.supervised.run
  rw [htrace] at hrun'
  have hunstarted : claim ∉ pool'.shared.started := by
    cases h.step_cases hstep with
    | quiet hshared | started _ _ _ hshared =>
        rw [hshared] at htrace
        exact absurd htrace.symm (List.cons_ne_self _ _)
    | other other hshared _ _ hcalls =>
        rw [hshared] at htrace ⊢
        cases htrace
        exact (hcalls claim hclaim).2
    | served other _ _ request hshared _ _ _ hruns =>
        rw [hshared] at htrace
        cases htrace
        rw [hoperation] at hruns
        cases request <;>
          first | exact hruns.elim | exact absurd hruns (by simp [ProcessRequest.Runs])
  obtain ⟨x, hx, hid, howned, -, -, -, hwritten⟩ := hrun'.step_of_claim? hclaim
  refine ⟨hunstarted, commit, by simp [htrace], by rw [hoperation]; rfl, hwritten, x.job, ?_,
    (ReceiptExtractionJob.isOwnedBy_iff.mp howned).2.2⟩
  rw [hrun'.head.2.1, ← hid]
  exact hx.job

/-- The steps that keep the law of attempts. -/
theorem WorkerRun.attemptsKept_iff (h : WorkerRun P employees pool)
    (hstep : Pool.Step (workerRules P employees) pool pool') {jobId : Long}
    (hretryable : OnlyRetryable pool jobId) :
    AttemptsKept employees pool pool' jobId ↔
      (∀ claim, HandsBack pool pool' claim → claim.jobId ≠ jobId) ∧
        (JobFails employees pool pool' jobId →
          pool.shared.lostOf jobId + MAX_ATTEMPTS ≤ claimsOf pool.shared.trace jobId) := by
  constructor
  · intro hkept
    constructor
    · intro claim hback hid
      obtain ⟨job, hjob, hcount⟩ := h.attemptCount_of_handsBack hstep hback
      rw [hid] at hjob
      have hcount' := hkept.handedBack claim job hback hid hjob
      omega
    · intro hfails
      have hstarts := hkept.failed hfails
      have hclaims := (h.claimsOf_of_failed hstep hretryable hfails).2
      omega
  · intro hcondition
    obtain ⟨hnone, hlost⟩ := hcondition
    constructor
    · intro hfails
      have hclaims := (h.claimsOf_of_failed hstep hretryable hfails).2
      have hlost' := hlost hfails
      omega
    · intro claim job hback hid
      exact absurd hid (hnone claim hback)

/-- A job that fails has lost no claim, if it has lost none after the step. -/
theorem WorkerRun.lostOf_eq_zero (h : WorkerRun P employees pool)
    (hstep : Pool.Step (workerRules P employees) pool pool') {jobId : Long}
    (hnone : ∀ claim, claim.jobId = jobId → ¬ pool'.shared.Lost claim)
    (hfails : JobFails employees pool pool' jobId) : pool.shared.lostOf jobId = 0 := by
  obtain ⟨_, commit, _, _, _, _, _, _, _, _, hshared, -⟩ := h.failed_by hstep hfails
  rw [WorkerState.lostOf, List.countP_eq_zero]
  intro claim _ hlost
  obtain ⟨hid, hunstarted, earlier, hmem, hrecalls⟩ := of_decide_eq_true hlost
  apply hnone claim hid
  rw [hshared]
  exact ⟨hunstarted, earlier, List.mem_cons_of_mem _ hmem, hrecalls⟩

/-- While all failures of a job are retryable, the law of attempts is kept in just
those steps that hand back no claim of the job, and that do not let the job fail
while its lost claims are needed to reach the limit.  In a run that loses no claim
of the job, it is kept in every step. -/
theorem attempts_kept_iff (hrun : WorkerRun P employees pool)
    (hstep : Pool.Step (workerRules P employees) pool pool') {jobId : Long}
    (hretryable : OnlyRetryable pool jobId) :
    (AttemptsKept employees pool pool' jobId ↔
      (∀ claim, HandsBack pool pool' claim → claim.jobId ≠ jobId) ∧
        (JobFails employees pool pool' jobId →
          pool.shared.lostOf jobId + MAX_ATTEMPTS ≤ claimsOf pool.shared.trace jobId)) ∧
    ((∀ claim, claim.jobId = jobId → ¬ pool'.shared.Lost claim) →
      AttemptsKept employees pool pool' jobId) := by
  have hiff := hrun.attemptsKept_iff hstep hretryable
  refine ⟨hiff, fun hnone => hiff.mpr ⟨?_, ?_⟩⟩
  · intro claim hback hid
    exact hnone claim hid (hrun.lost_of_handsBack hstep hback)
  · intro hfails
    rw [hrun.lostOf_eq_zero hstep hnone hfails, Nat.zero_add]
    exact (hrun.claimsOf_of_failed hstep hretryable hfails).1

/-! ## A job that fails after one run -/

namespace Sample

/-- What the worker takes away when the job is claimed again. -/
def laterClaim (attemptCount jobVersion : ℕ) (now : Instant) (token : String) :
    ClaimedReceiptJob :=
  { firstClaim now token with attemptCount, jobVersion }

/-- Two claims are handed back unstarted, and the job is claimed a third time. -/
def releasedOperations : List Operation :=
  [intakeOf (uploadOf "key-1" imageA) 1 1 0,
    claimAll 1 "first", .release (firstClaim 1 "first") 2,
    claimAll 3 "second", .release (laterClaim 2 3 3 "second") 4,
    claimAll 5 "third"]

def releasedTrace : List Commit := (replay platform staff [] releasedOperations).getD []

def thirdClaim : ClaimedReceiptJob := laterClaim 3 5 5 "third"

theorem releasedTrace_run : Run platform staff releasedTrace := by
  refine run_of_replay releasedOperations .nil ?_ rfl
  simp only [releasedOperations, List.forall_mem_cons]
  exact ⟨intakeOf_permitted .., trivial, trivial, trivial, trivial, trivial, by simp⟩

/-- Every call is made with a claim that was handed out before. -/
def callsHandedOut : List Commit → Bool
  | [] => true
  | commit :: trace =>
      commit.operation.claim?.all (· ∈ handedOut trace) && callsHandedOut trace

theorem disciplined_of_calls (hcalls : callsHandedOut trace = true)
    (htokens : ((handedOut trace).map ClaimedReceiptJob.claimToken).Nodup) :
    Disciplined trace := by
  induction trace with
  | nil => trivial
  | cons commit trace ih =>
      simp only [callsHandedOut, Bool.and_eq_true] at hcalls
      simp only [handedOut, List.flatMap_cons, List.map_append, List.nodup_append] at htokens
      obtain ⟨hnew, hold, hdisjoint⟩ := htokens
      refine ⟨ih hcalls.2 hold, ?_, hnew, ?_⟩
      · intro claim hclaim
        simpa [hclaim, mem_handedOut] using hcalls.1
      · intro claim hclaim other hother hsame
        exact hdisjoint _ (List.mem_map_of_mem hclaim) _
          (List.mem_map_of_mem (mem_handedOut.mpr hother)) hsame.symm

theorem releasedTrace_disciplined : Disciplined releasedTrace := by
  apply disciplined_of_calls
  · decide +kernel
  · decide +kernel

/-- The storage has timed out. -/
def timeout : Failure := .receiptImageStorage "timeout" true

/-- The thread of the third claim, after the storage has timed out. -/
def timedOut : WorkerPool :=
  (Pool.initial ⟨releasedTrace, []⟩).update ⟨releasedTrace, [thirdClaim]⟩ thirdClaim
    ⟨[⟨.load thirdClaim.imageStorageKey, .error timeout⟩],
      some (ReceiptExtractionProcessor.handle thirdClaim timeout)⟩

theorem timedOut_run : WorkerRun platform staff timedOut := by
  have hreleased : WorkerRun platform staff (.initial ⟨releasedTrace, []⟩) :=
    workerRun_of_run releasedTrace_run releasedTrace_disciplined (by decide +kernel)
  have hstarts : WorkerState.Starts thirdClaim ⟨releasedTrace, []⟩
      ⟨releasedTrace, [thirdClaim]⟩ := by
    have hnever : ∀ commit ∈ releasedTrace, commit.operation.claim? ≠ some thirdClaim := by
      decide +kernel
    refine ⟨mem_handedOut.mp (by decide +kernel), ?_, rfl⟩
    intro hback
    obtain ⟨commit, hmem, now, hoperation⟩ := hback
    exact hnever commit hmem (by rw [hoperation]; rfl)
  have hstarted := Pool.Run.step hreleased (.start rfl hstarts)
  have hanswer : (workerRules platform staff).serves thirdClaim ⟨releasedTrace, [thirdClaim]⟩
      (.load thirdClaim.imageStorageKey) (.error timeout) ⟨releasedTrace, [thirdClaim]⟩ := rfl
  have hserved := Pool.Run.step hstarted
    (Pool.Step.serve_of_eq (Pool.threads_update_self ..) rfl hanswer)
  rw [Pool.update_update_self] at hserved
  exact hserved

theorem timedOut_onlyRetryable : OnlyRetryable timedOut 1 := by
  intro claim thread hthread _
  by_cases hsame : claim = thirdClaim
  · subst hsame
    rw [timedOut, Pool.threads_update_self] at hthread
    cases hthread
    intro exchange hmem e hanswer
    obtain rfl := List.mem_singleton.mp hmem
    cases hanswer
    rfl
  · rw [timedOut, Pool.threads_update_of_ne _ _ hsame] at hthread
    exact absurd hthread (by simp [Pool.initial])

/-- The job fails. -/
def failedTrace : List Commit :=
  (replay platform staff releasedTrace
    [.failExtraction thirdClaim (.ofString timeout.simpleName) timeout.message 6]).getD []

/-- The thread reports the failure. -/
theorem failed_step : ∃ pool', Pool.Step (workerRules platform staff) timedOut pool' ∧
    pool'.shared = ⟨failedTrace, [thirdClaim]⟩ := by
  have hextends : Extends platform staff releasedTrace
      (.failExtraction thirdClaim (.ofString timeout.simpleName) timeout.message 6)
      (.receipt ((failedTrace[0].after.receiptRow 1).get rfl)) failedTrace :=
    ⟨_, current_mem_snapshots _ _, failedTrace[0].changes, failedTrace[0].after, rfl, rfl, rfl⟩
  have hanswer : (workerRules platform staff).serves thirdClaim ⟨releasedTrace, [thirdClaim]⟩
      (.failExtraction thirdClaim (.ofString timeout.simpleName) timeout.message)
      (.ok ((failedTrace[0].after.receiptRow 1).get rfl)) ⟨failedTrace, [thirdClaim]⟩ :=
    ⟨⟨_, ⟨6, rfl⟩, hextends⟩, rfl⟩
  exact ⟨_, Pool.Step.serve_of_eq (Pool.threads_update_self ..) rfl hanswer, rfl⟩

theorem failed_jobFails {pool' : WorkerPool}
    (hshared : pool'.shared = ⟨failedTrace, [thirdClaim]⟩) : JobFails staff timedOut pool' 1 :=
  ⟨_, _, rfl, by decide +kernel, by rw [hshared]; rfl, by decide +kernel⟩

end Sample

open Sample in
/-- Two claims were lost, so the law of attempts is not kept. -/
theorem failedTrace_not_kept :
    ∃ pool', Pool.Step (workerRules platform staff) timedOut pool' ∧
      ¬ AttemptsKept staff timedOut pool' 1 := by
  obtain ⟨pool', hstep, hshared⟩ := failed_step
  refine ⟨pool', hstep, fun hkept => ?_⟩
  have hcondition := (attempts_kept_iff timedOut_run hstep timedOut_onlyRetryable).1.mp hkept
  exact absurd (hcondition.2 (failed_jobFails hshared)) (by decide +kernel)

open Sample in
/-- The job is failed by its third claim, though `process` was started only once. -/
theorem failedTrace_premature :
    ∃ pool pool', WorkerRun platform staff pool ∧
      Pool.Step (workerRules platform staff) pool pool' ∧ OnlyRetryable pool 1 ∧
      JobFails staff pool pool' 1 ∧ pool'.shared.startsOf 1 < MAX_ATTEMPTS := by
  obtain ⟨pool', hstep, hshared⟩ := failed_step
  refine ⟨timedOut, pool', timedOut_run, hstep, timedOut_onlyRetryable,
    failed_jobFails hshared, ?_⟩
  rw [hshared]
  decide +kernel

end ReceiptReview
