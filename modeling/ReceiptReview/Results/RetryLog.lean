import Mathlib.Order.Interval.Finset.Nat
import ReceiptReview.Results.FailedJobs

/-!
# The audit log of attempts and retries

The log of a receipt accounts for the attempts of its job.  Each claim is
recorded once, so the count of the job is the number of the recorded claims
(`Run.attemptCount_eq_claimed`).  A retry is recorded with the count of its
attempt, which lies below the limit; the next retry needs another claim, so the
recorded counts increase (`Run.retryCounts`).
-/

namespace ReceiptReview

open Java Store ReceiptCase ReceiptExtractionProcessor

variable {P : Platform} {employees : Table Employee} {pool pool' : WorkerPool}
variable {trace : List Commit} {commit : Commit} {operation : Operation}
variable {x x' : ReceiptCase} {log events : List AuditEvent} {counts : List ℕ}

/-- What an event records as `attemptCount`. -/
def AuditEvent.attemptCount (event : AuditEvent) : Option Detail :=
  event.details.lookup "attemptCount"

def claimedEvents (log : List AuditEvent) : List AuditEvent :=
  log.filter (·.action = .extractionJobClaimed)

def retryEvents (log : List AuditEvent) : List AuditEvent :=
  log.filter (·.action = .extractionRetryScheduled)

/-- The retries of a log were recorded with these counts. -/
def RecordsRetries (log : List AuditEvent) (counts : List ℕ) : Prop :=
  (retryEvents log).map AuditEvent.attemptCount = counts.map fun count => some (.number count)

/-! ## The log of a receipt -/

/-- A commit appends its events to the log of each receipt. -/
theorem Run.log_cons (h : Run P employees (commit :: trace)) (id : Long) :
    eventsFor id (current employees (commit :: trace)).auditEvents =
      eventsFor id (current employees trace).auditEvents ++ eventsFor id commit.changes.events := by
  obtain ⟨-, hbefore, -, hcommit, -⟩ := h.head
  rw [hbefore] at hcommit
  rw [← eventsFor_append, ← Database.auditEvents_commit hcommit]
  rfl

/-- The log of a new receipt records its upload only. -/
theorem Run.log_created (h : Run P employees (commit :: trace)) (hcreates : commit.Creates x) :
    ∀ event ∈ eventsFor x.receipt.id (current employees (commit :: trace)).auditEvents,
      event.action = .uploaded := by
  obtain ⟨_, _, _, auditEvents, receiptId, _, _, _, hoperation, rfl, hevents, hfresh⟩ := hcreates
  obtain ⟨hrun, hbefore, hpermitted, -⟩ := h.head
  rw [hoperation] at hpermitted
  obtain ⟨_, _, _, -, -, rfl⟩ := hpermitted
  rw [hbefore] at hfresh
  intro event hmem
  rw [h.log_cons] at hmem
  have hold : eventsFor receiptId (current employees trace).auditEvents = [] :=
    hrun.current_refines.eventsFor_eq_nil hfresh
  rcases List.mem_append.mp hmem with hmem | hmem
  · exact absurd (hold ▸ hmem) (by simp)
  have hnew := List.mem_of_mem_filter hmem
  rw [hevents] at hnew
  obtain ⟨uploaded, huploaded, rfl⟩ := List.mem_map.mp hnew
  obtain rfl := List.mem_singleton.mp huploaded
  rfl

theorem filter_action_eq_nil {action : AuditAction}
    (h : ∀ event ∈ log, event.action ≠ action) : log.filter (·.action = action) = [] := by
  rw [List.filter_eq_nil_iff]
  intro event hmem
  simpa using h event hmem

/-! ## The recorded claims -/

/-- Only a claim is recorded as one. -/
theorem ReceiptCase.Step.claimedEvents_eq_nil (h : Step employees operation x events x')
    (hother : operation.ownership ≠ .takes) : claimedEvents events = [] := by
  cases h with
  | claimed => exact absurd rfl hother
  | recovered _ hactions =>
      apply filter_action_eq_nil
      intro event hmem
      rw [hactions event hmem]
      simp
  | @decided _ _ _ decision => cases decision <;> rfl
  | _ => rfl

/-- A commit that claims jobs records one claim for each job that it writes. -/
theorem Run.claimedEvents_of_takes (h : Run P employees (commit :: trace))
    (htakes : commit.operation.ownership = .takes) (hx : (current employees trace).HasCase x) :
    (claimedEvents (eventsFor x.receipt.id commit.changes.events)).length =
      commit.changes.jobs.countP (·.id = x.job.id) := by
  obtain ⟨-, -, -, -, snapshot, -, hbody⟩ := h.head
  obtain ⟨workerId, batchSize, leaseDuration, now, tokens, locked, hoperation⟩ :=
    claimAvailable_of_takes htakes
  rw [hoperation] at hbody
  simp only [Operation.body, replyWith_eq_ok] at hbody
  obtain ⟨claims, hclaim, -⟩ := hbody
  obtain ⟨claimed, -, hnodup, -, hchanges⟩ := ReceiptJobClaimService.claimAvailable_eq_ok hclaim
  have hcreated : commit.changes.created = none := by rw [hchanges]
  have hpaired := h.head.1.current_refines.paired
  have hjobs : commit.changes.jobs = claimed := by rw [hchanges]
  -- a written job is about the receipt of its case
  have hsame : ∀ job ∈ claimed, job.receiptId = x.receipt.id ↔ job.id = x.job.id := by
    intro job hjob
    obtain ⟨y, hy, hyid, -, hversion, hstep⟩ := h.step_of_written_job hcreated (hjobs ▸ hjob)
    have hchanged : (y.updated commit.changes).job.version ≠ y.job.version := by omega
    obtain ⟨written, hwritten, hwrittenId, hupdated⟩ := exists_written_job hchanged
    rw [hjobs] at hwritten
    obtain rfl := List.inj_on_of_nodup_map hnodup hwritten hjob (hwrittenId.trans hyid)
    have hreceipt : written.receiptId = y.receipt.id := by
      calc written.receiptId = (y.updated commit.changes).job.receiptId := by rw [hupdated]
        _ = y.job.receiptId := hstep.sameJob.receiptId
        _ = y.receipt.id := hy.receiptId
    rw [hreceipt, hwrittenId]
    constructor
    · intro hid
      rw [hpaired.unique hy hx hid]
    · intro hid
      rw [hy.eq_of_jobId hx hid]
  rw [hchanges]
  simp only [claimedEvents, eventsFor, List.filter_filter, List.filter_map, List.length_map]
  rw [← List.countP_eq_length_filter]
  refine List.countP_congr fun job hjob => ?_
  simp [ReceiptJobClaimService.claimedEvent, systemEvent, hsame job hjob]

/-- The claims of a job that a commit hands out are those that it records. -/
theorem Run.length_claimedEvents (h : Run P employees (commit :: trace))
    (hx : (current employees trace).HasCase x) :
    (claimedEvents (eventsFor x.receipt.id commit.changes.events)).length =
      commit.handedOut.countP (·.jobId = x.job.id) := by
  by_cases htakes : commit.operation.ownership = .takes
  · rw [h.claimedEvents_of_takes htakes hx, h.countP_of_takes htakes]
  · rw [h.countP_handedOut, if_neg fun hboth => htakes hboth.1]
    rcases h.kept_or_updated hx with ⟨-, hquiet, -⟩ | ⟨-, hstep⟩
    · rw [hquiet]
      rfl
    · rw [hstep.claimedEvents_eq_nil htakes]
      rfl

/-- The count of a job is the number of its recorded claims. -/
theorem Run.attemptCount_eq_claimed (h : Run P employees trace)
    (hx : (current employees trace).HasCase x) :
    x.job.attemptCount =
      (claimedEvents (eventsFor x.receipt.id (current employees trace).auditEvents)).length := by
  induction trace generalizing x with
  | nil => exact absurd hx.receipt (by simp [current, Database.initial, Database.receiptRow])
  | cons commit trace ih =>
      rcases h.created_or_moved hx with hcreates | ⟨y, hy, hmoves⟩
      · rw [(h.claimsOf_created hcreates).1, claimedEvents, filter_action_eq_nil]
        · rfl
        · intro event hmem
          rw [h.log_created hcreates event hmem]
          simp
      · rw [h.log_cons, claimedEvents, List.filter_append, List.length_append,
          h.attemptCount_step hy hx hmoves.sameReceipt.id, hmoves.sameReceipt.id,
          hmoves.sameJob.id, ← h.length_claimedEvents hy, ih h.head.1 hy]
        exact Nat.add_comm _ _

/-! ## The recorded retries -/

/-- What a step does to the attempts of a job, and which retries it records. -/
inductive ReceiptCase.RetryStep (operation : Operation) (x : ReceiptCase)
    (events : List AuditEvent) (x' : ReceiptCase) : Prop
  | claimed : RecordsRetries events [] → x'.job.attemptCount = x.job.attemptCount + 1 →
      RetryStep operation x events x'
  | retried (claim : ClaimedReceiptJob) (errorCode : JString) (errorMessage : Option JString)
      (retryAt now : Instant) :
      operation = .scheduleRetry claim errorCode errorMessage retryAt now →
      claim.jobId = x.job.id → x.job.status = .processing →
      RecordsRetries events [x.job.attemptCount] →
      x'.job.attemptCount = x.job.attemptCount → x'.job.status ≠ .processing →
      RetryStep operation x events x'
  | other : RecordsRetries events [] → x'.job.attemptCount = x.job.attemptCount →
      (x'.job.status = .processing → x.job.status = .processing) →
      RetryStep operation x events x'

theorem recordsRetries_nil {action : AuditAction}
    (hactions : ∀ event ∈ events, event.action = action)
    (hother : action ≠ .extractionRetryScheduled) : RecordsRetries events [] := by
  have hnone : retryEvents events = [] :=
    filter_action_eq_nil fun event hmem => by rwa [hactions event hmem]
  rw [RecordsRetries, hnone]
  rfl

theorem ReceiptCase.Step.retryStep (h : Step employees operation x events x') :
    RetryStep operation x events x' := by
  cases h with
  | claimed hclaim hactions =>
      rw [(ReceiptExtractionJob.claim_eq_ok hclaim).2]
      exact .claimed (recordsRetries_nil hactions (by simp)) rfl
  | recovered hrecover hactions =>
      rw [(ReceiptExtractionJob.recoverExpiredLease_eq_ok hrecover).2.2]
      exact .other (recordsRetries_nil hactions (by simp)) rfl
        (by simp [ReceiptExtractionJob.flushed])
  | released _ hrelease =>
      rw [(ReceiptExtractionJob.releaseClaim_eq_ok hrelease).2]
      exact .other rfl rfl (by simp [ReceiptExtractionJob.flushed])
  | qualityRejected _ _ hcomplete | extracted _ _ hcomplete =>
      rw [(ReceiptExtractionJob.complete_eq_ok hcomplete).2]
      exact .other rfl rfl (by simp [ReceiptExtractionJob.flushed])
  | failed _ _ hfail =>
      rw [(ReceiptExtractionJob.fail_eq_ok hfail).2]
      exact .other rfl rfl (by simp [ReceiptExtractionJob.flushed])
  | retryScheduled hid _ hretry =>
      obtain ⟨howned, rfl⟩ := ReceiptExtractionJob.scheduleRetry_eq_ok hretry
      exact .retried _ _ _ _ _ rfl hid (ReceiptExtractionJob.isOwnedBy_iff.mp howned).1 rfl rfl
        (by simp [ReceiptExtractionJob.flushed])
  | duplicateDeferred | duplicateMarked => exact .other rfl rfl id
  | corrected => exact .other rfl rfl id
  | @decided _ _ _ decision => exact .other (by cases decision <;> rfl) rfl id

/-- The recorded counts are those of earlier attempts below the limit, and they increase. -/
structure RetryCounts (job : ReceiptExtractionJob) (counts : List ℕ) : Prop where
  increasing : counts.Pairwise (· < ·)
  positive : ∀ count ∈ counts, 0 < count
  bounded : ∀ count ∈ counts, count < MAX_ATTEMPTS
  counted : ∀ count ∈ counts, count ≤ job.attemptCount
  /-- The attempt that is under way has not been retried. -/
  running : job.status = .processing → 0 < job.attemptCount ∧ job.attemptCount ∉ counts

theorem RecordsRetries.append {counts' : List ℕ} (h : RecordsRetries log counts)
    (h' : RecordsRetries events counts') : RecordsRetries (log ++ events) (counts ++ counts') := by
  rw [RecordsRetries, retryEvents, List.filter_append, List.map_append, List.map_append]
  exact congrArg₂ (· ++ ·) h h'

/-- A step that retries no attempt keeps the recorded counts. -/
theorem RetryCounts.keep {job job' : ReceiptExtractionJob} (h : RetryCounts job counts)
    (hcount : job.attemptCount ≤ job'.attemptCount)
    (hrunning : job'.status = .processing → 0 < job'.attemptCount ∧ job'.attemptCount ∉ counts) :
    RetryCounts job' counts where
  increasing := h.increasing
  positive := h.positive
  bounded := h.bounded
  counted := fun count hmem => (h.counted count hmem).trans hcount
  running := hrunning

/-- The retry of the attempt that is under way is recorded after all earlier ones. -/
theorem RetryCounts.retry {job job' : ReceiptExtractionJob} (h : RetryCounts job counts)
    (hprocessing : job.status = .processing) (hlimit : job.attemptCount < MAX_ATTEMPTS)
    (hcount : job'.attemptCount = job.attemptCount) (hstatus : job'.status ≠ .processing) :
    RetryCounts job' (counts ++ [job.attemptCount]) := by
  obtain ⟨hpositive, hnew⟩ := h.running hprocessing
  have hbefore : ∀ count ∈ counts, count < job.attemptCount := fun count hmem =>
    lt_of_le_of_ne (h.counted count hmem) fun hsame => hnew (hsame ▸ hmem)
  constructor
  · rw [List.pairwise_append]
    exact ⟨h.increasing, List.pairwise_singleton _ _, by simpa using hbefore⟩
  · simpa [or_imp, forall_and, hpositive] using h.positive
  · simpa [or_imp, forall_and, hlimit] using h.bounded
  · simpa [or_imp, forall_and, hcount] using h.counted
  · exact fun hprocessing' => absurd hprocessing' hstatus

theorem RetryCounts.step (h : RetryCounts x.job counts) (hstep : RetryStep operation x events x')
    (hlimit : ∀ claim errorCode errorMessage retryAt now,
      operation = .scheduleRetry claim errorCode errorMessage retryAt now →
      claim.jobId = x.job.id → x.job.attemptCount < MAX_ATTEMPTS) :
    ∃ more, RecordsRetries events more ∧ RetryCounts x'.job (counts ++ more) := by
  cases hstep with
  | claimed hrecords hcount =>
      refine ⟨[], hrecords, ?_⟩
      rw [List.append_nil]
      refine h.keep (by omega) fun _ => ⟨by omega, fun hmem => ?_⟩
      have hcounted := h.counted _ hmem
      omega
  | retried claim errorCode errorMessage retryAt now hoperation hid hprocessing hrecords hcount
      hstatus =>
      refine ⟨[x.job.attemptCount], hrecords, h.retry hprocessing ?_ hcount hstatus⟩
      exact hlimit claim errorCode errorMessage retryAt now hoperation hid
  | other hrecords hcount hrunning =>
      refine ⟨[], hrecords, ?_⟩
      rw [List.append_nil]
      refine h.keep hcount.ge fun hprocessing => ?_
      rw [hcount]
      exact h.running (hrunning hprocessing)

/-- A retry is scheduled while the count of the job is below the limit. -/
theorem Run.lt_of_scheduleRetry (h : Run P employees (commit :: trace))
    (hdisciplined : Disciplined (commit :: trace)) (hretries : RetriesBelowLimit (commit :: trace))
    (hx : (current employees trace).HasCase x) {claim : ClaimedReceiptJob} {errorCode : JString}
    {errorMessage : Option JString} {retryAt now : Instant}
    (hoperation : commit.operation = .scheduleRetry claim errorCode errorMessage retryAt now)
    (hid : claim.jobId = x.job.id) : x.job.attemptCount < MAX_ATTEMPTS := by
  have hclaim : commit.operation.claim? = some claim := by rw [hoperation]; rfl
  rw [← h.head.1.attemptCount_of_live (h.live_of_claim? hdisciplined hclaim) hx hid.symm]
  exact hretries commit (by simp) claim errorCode errorMessage retryAt now hoperation

/-- The log of a receipt records its retries with increasing counts below the limit. -/
theorem Run.retryCounts (h : Run P employees trace) (hdisciplined : Disciplined trace)
    (hretries : RetriesBelowLimit trace) (hx : (current employees trace).HasCase x) :
    ∃ counts, RecordsRetries
        (eventsFor x.receipt.id (current employees trace).auditEvents) counts ∧
      RetryCounts x.job counts := by
  induction trace generalizing x with
  | nil => exact absurd hx.receipt (by simp [current, Database.initial, Database.receiptRow])
  | cons commit trace ih =>
      rcases h.created_or_moved hx with hcreates | ⟨y, hy, hmoves⟩
      · refine ⟨[], recordsRetries_nil (h.log_created hcreates) (by simp), ?_⟩
        obtain ⟨_, _, _, _, _, _, _, _, -, rfl, -⟩ := hcreates
        constructor <;> simp [intake, ReceiptExtractionJob.new]
      · obtain ⟨counts, hrecords, hcounts⟩ := ih h.head.1 hdisciplined.1
          (fun commit hmem => hretries commit (List.mem_cons_of_mem _ hmem)) hy
        rw [h.log_cons, hmoves.sameReceipt.id]
        rcases hmoves with ⟨rfl, hquiet⟩ | hstep
        · refine ⟨counts, ?_, hcounts⟩
          rw [hquiet, List.append_nil]
          exact hrecords
        · obtain ⟨more, hmore, hcounts'⟩ := hcounts.step hstep.retryStep
            fun claim errorCode errorMessage retryAt now hoperation hid =>
              h.lt_of_scheduleRetry hdisciplined hretries hy hoperation hid
          exact ⟨counts ++ more, hrecords.append hmore, hcounts'⟩

/-- Increasing counts between 0 and the limit are few. -/
theorem RetryCounts.length_le {job : ReceiptExtractionJob} (h : RetryCounts job counts) :
    counts.length ≤ MAX_ATTEMPTS - 1 := by
  have hnodup : counts.Nodup := h.increasing.imp fun hlt => hlt.ne
  calc counts.length = counts.toFinset.card := (List.toFinset_card_of_nodup hnodup).symm
    _ ≤ (Finset.Ioo 0 MAX_ATTEMPTS).card := by
        apply Finset.card_le_card
        intro count hmem
        have hcount := List.mem_toFinset.mp hmem
        exact Finset.mem_Ioo.mpr ⟨h.positive count hcount, h.bounded count hcount⟩
    _ = MAX_ATTEMPTS - 1 := Nat.card_Ioo 0 MAX_ATTEMPTS

/-! ## The failure that ends a job -/

/-- The thread fails its job right after it has caught this exception, and reports it. -/
def FailsAfter (pool pool' : WorkerPool) (claim : ClaimedReceiptJob) (e : Failure) : Prop :=
  ∃ failed earlier answer, pool.past claim = ⟨failed, .error e⟩ :: earlier ∧
    pool'.past claim =
      ⟨.failExtraction claim (.ofString e.simpleName) e.message, answer⟩ :: pool.past claim

/-- A job fails after an exception that is retried, at the limit of attempts, or after a fatal
one. -/
theorem WorkerRun.failed_after (h : WorkerRun P employees pool)
    (hstep : Pool.Step (workerRules P employees) pool pool') {jobId : Long}
    (hfails : JobFails employees pool pool' jobId) :
    ∃ job claim e, (current employees pool.shared.trace).findJob jobId = some job ∧
      claim.jobId = jobId ∧ FailsAfter pool pool' claim e ∧
      (e.isRetryable = true ∧ MAX_ATTEMPTS ≤ job.attemptCount ∨ e.isFatal = true) := by
  obtain ⟨x, commit, claim, past, rest, errorCode, errorMessage, answer, hx, rfl, -, hthread, hpast,
    hreports, hlive, hid⟩ := h.failed_by hstep hfails
  obtain ⟨-, failed, e, earlier, rfl, rfl, rfl, hcause⟩ := hreports
  have hbefore : pool.past claim = ⟨failed, .error e⟩ :: earlier := Pool.past_of_thread hthread
  refine ⟨x.job, claim, e, hx.job, hid, ⟨failed, earlier, answer, hbefore, ?_⟩, ?_⟩
  · rw [hpast, hbefore]
  · rwa [← h.supervised.run.attemptCount_of_live hlive hx hid.symm]

/-- A job counts its recorded claims; its retries are recorded with increasing counts below the
limit, so they are few; and an exception that is retried fails the job only at the limit. -/
theorem retry_accounting (hrun : WorkerRun P employees pool) :
    (∀ jobId job, (current employees pool.shared.trace).findJob jobId = some job →
      let log := eventsFor job.receiptId (current employees pool.shared.trace).auditEvents
      job.attemptCount = (claimedEvents log).length ∧
      (∃ counts : List ℕ, RecordsRetries log counts ∧ counts.Pairwise (· < ·) ∧
        ∀ count ∈ counts, count < MAX_ATTEMPTS) ∧
      (retryEvents log).length ≤ MAX_ATTEMPTS - 1) ∧
    ∀ pool', Pool.Step (workerRules P employees) pool pool' →
      ∀ jobId, JobFails employees pool pool' jobId →
        ∃ job claim e, (current employees pool.shared.trace).findJob jobId = some job ∧
          claim.jobId = jobId ∧ FailsAfter pool pool' claim e ∧
          (e.isRetryable = true → MAX_ATTEMPTS ≤ job.attemptCount) := by
  have hsupervised := hrun.supervised
  constructor
  · intro jobId job hjob log
    obtain ⟨x, hx, rfl⟩ := hsupervised.run.current_refines.paired.of_job hjob
    have hlog : log = eventsFor x.receipt.id
        (current employees pool.shared.trace).auditEvents := by rw [← hx.receiptId]
    obtain ⟨counts, hrecords, hcounts⟩ :=
      hsupervised.run.retryCounts hsupervised.disciplined hsupervised.retries hx
    rw [hlog]
    refine ⟨hsupervised.run.attemptCount_eq_claimed hx,
      ⟨counts, hrecords, hcounts.increasing, hcounts.bounded⟩, ?_⟩
    -- the counts increase below the limit, so they are few
    have hlength := congrArg List.length hrecords
    rw [List.length_map, List.length_map] at hlength
    rw [hlength]
    exact hcounts.length_le
  · intro pool' hstep jobId hfails
    obtain ⟨job, claim, e, hjob, hid, hafter, hcause⟩ := hrun.failed_after hstep hfails
    refine ⟨job, claim, e, hjob, hid, hafter, fun hretryable => ?_⟩
    rcases hcause with ⟨-, hlimit⟩ | hfatal
    · exact hlimit
    · -- an exception that is to be retried is not fatal
      rw [isFatal_of_isRetryable hretryable] at hfatal
      exact absurd hfatal (by simp)

open Sample in
/-- Three claims are recorded for the job, and its third attempt is the one that fails it. -/
theorem timedOut_accounted :
    (claimedEvents (eventsFor 1 (current staff releasedTrace).auditEvents)).length = 3 ∧
      ∃ pool', Pool.Step (workerRules platform staff) timedOut pool' ∧
        ∃ job claim e, (current staff releasedTrace).findJob 1 = some job ∧ claim.jobId = 1 ∧
          FailsAfter timedOut pool' claim e ∧
          (e.isRetryable = true → MAX_ATTEMPTS ≤ job.attemptCount) := by
  obtain ⟨hlog, hfails⟩ := retry_accounting timedOut_run
  constructor
  · exact (hlog 1 _ rfl).1.symm
  · obtain ⟨pool', hstep, hshared⟩ := failed_step
    exact ⟨pool', hstep, hfails pool' hstep 1 (failed_jobFails hshared)⟩

end ReceiptReview
