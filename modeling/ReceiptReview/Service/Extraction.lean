import Mathlib.Data.List.Sort
import ReceiptReview.Service.Persistence

/-!
# Claiming jobs and recording extraction outcomes

`ReceiptJobClaimService`, `ExpiredJobRecoveryService` and
`ReceiptExtractionLifecycleService`.  Each transaction is a function of the
snapshot it reads; the readings of the clock and the drawn claim tokens are
arguments.
-/

namespace ReceiptReview

open Java Store Outcome

inductive ImageQualityStatus
  | acceptable
  | needsRecapture
  | unreadable
  deriving DecidableEq, Repr

structure ImageQualityResult where
  status : ImageQualityStatus
  width : Option ℤ
  height : Option ℤ
  reason : Option JString
  deriving DecidableEq, Repr

structure ExtractionResult where
  data : Option ReceiptData
  provider : JString
  model : JString
  deriving DecidableEq, Repr

/-! ## Claim, release and recovery -/

namespace ReceiptExtractionJobRepository

/-- `ORDER BY available_at, id`. -/
def availableBefore (a b : ReceiptExtractionJob) : Prop :=
  a.availableAt < b.availableAt ∨ a.availableAt = b.availableAt ∧ a.id ≤ b.id

/-- `ORDER BY lease_until, id`; expired jobs have a lease. -/
def leasedBefore (a b : ReceiptExtractionJob) : Prop :=
  a.leaseUntil.getD 0 < b.leaseUntil.getD 0 ∨
    a.leaseUntil.getD 0 = b.leaseUntil.getD 0 ∧ a.id ≤ b.id

instance : DecidableRel availableBefore := fun a b => by unfold availableBefore; infer_instance

instance : DecidableRel leasedBefore := fun a b => by unfold leasedBefore; infer_instance

/-- Waiting jobs, oldest first; `SKIP LOCKED` passes over the rows in `locked`. -/
def lockAvailableJobs (db : Database) (now : Instant) (batchSize : ℤ) (locked : List Long) :
    List ReceiptExtractionJob :=
  ((db.jobs.rows.filter fun job =>
    (job.status = .queued || job.status = .retryWait) && job.availableAt ≤ now &&
      !locked.contains job.id).insertionSort availableBefore).take batchSize.toNat

/-- Jobs whose lease has run out, oldest lease first. -/
def lockExpiredJobs (db : Database) (now : Instant) (batchSize : ℤ) (locked : List Long) :
    List ReceiptExtractionJob :=
  ((db.jobs.rows.filter fun job =>
    job.status = .processing && job.leaseExpired now &&
      !locked.contains job.id).insertionSort leasedBefore).take batchSize.toNat

theorem mem_lockAvailableJobs {db : Database} {now : Instant} {batchSize : ℤ}
    {locked : List Long} {job : ReceiptExtractionJob}
    (h : job ∈ lockAvailableJobs db now batchSize locked) : job ∈ db.jobs.rows := by
  have hsorted := List.mem_of_mem_take h
  rw [List.mem_insertionSort] at hsorted
  exact List.mem_of_mem_filter hsorted

theorem mem_lockExpiredJobs {db : Database} {now : Instant} {batchSize : ℤ}
    {locked : List Long} {job : ReceiptExtractionJob}
    (h : job ∈ lockExpiredJobs db now batchSize locked) : job ∈ db.jobs.rows := by
  have hsorted := List.mem_of_mem_take h
  rw [List.mem_insertionSort] at hsorted
  exact List.mem_of_mem_filter hsorted

/-- A batch holds a job at most once. -/
theorem lockAvailableJobs_nodup (db : Database) (now : Instant) (batchSize : ℤ)
    (locked : List Long) :
    ((lockAvailableJobs db now batchSize locked).map ReceiptExtractionJob.id).Nodup := by
  have hrows : (db.jobs.rows.map ReceiptExtractionJob.id).Nodup := db.jobs.keys_nodup
  refine ((List.take_sublist _ _).map _).nodup ?_
  refine ((List.perm_insertionSort _ _).map _).nodup_iff.mpr ?_
  exact (List.filter_sublist.map _).nodup hrows

end ReceiptExtractionJobRepository

open ReceiptExtractionJobRepository

namespace ReceiptJobClaimService

def validateClaimRequest (workerId : JString) (batchSize leaseDuration : ℤ) :
    Except Failure Unit := do
  throwIf (workerId.isBlank ∨ 100 < workerId.length)
    (.illegalArgument "workerId는 1~100자여야 합니다.")
  throwIf (batchSize ≤ 0) (.illegalArgument "batchSize는 1 이상이어야 합니다.")
  throwIf (leaseDuration ≤ 0) (.illegalArgument "leaseDuration은 0보다 커야 합니다.")

def claimedEvent (workerId : JString) (now leaseUntil : Instant) (job : ReceiptExtractionJob) :
    AuditEvent :=
  systemEvent job.receiptId now .extractionJobClaimed none none
    [("workerId", .text workerId), ("attemptCount", .number job.attemptCount),
      ("leaseUntil", .instant leaseUntil)]

/-- The claim as the worker takes it away; the flush has counted the version up. -/
def toClaimedJob (db : Database) (job : ReceiptExtractionJob) :
    Except Failure ClaimedReceiptJob := do
  let receipt ← orElseThrow (db.findReceipt job.receiptId) (.receiptNotFound job.receiptId)
  return {
    jobId := job.id
    receiptId := receipt.id
    jobVersion := job.version + 1
    attemptCount := job.attemptCount
    workerId := job.lockedBy
    claimToken := job.claimToken
    leaseUntil := job.leaseUntil
    imageStorageKey := job.imageStorageKey
    contentType := receipt.contentType
    fileName := receipt.originalFileName
    duplicateDetected := job.duplicateDetected }

/-- Claim up to `batchSize` waiting jobs; `tokens` are the drawn UUIDs. -/
def claimAvailable (db : Database) (workerId : JString) (batchSize leaseDuration : ℤ)
    (now : Instant) (tokens : Long → JString) (locked : List Long) :
    Except Failure (List ClaimedReceiptJob × Database.Changes) := do
  validateClaimRequest workerId batchSize leaseDuration
  let leaseUntil := now + leaseDuration
  let jobs := lockAvailableJobs db now batchSize locked
  let claimed ← jobs.mapM fun job => job.claim workerId (tokens job.id) now leaseUntil
  let claims ← claimed.mapM (toClaimedJob db)
  return (claims, {
    jobs := claimed
    events := claimed.map (claimedEvent workerId now leaseUntil) })

def release (db : Database) (claimedJob : ClaimedReceiptJob) (now : Instant) :
    Except Failure (Unit × Database.Changes) := do
  let job ← orElseThrow (db.findJob claimedJob.jobId)
    (.illegalState "영수증 추출 작업을 찾을 수 없습니다.")
  throwIf (¬ job.isOwnedBy claimedJob.workerId claimedJob.claimToken) (.jobOwnershipLost job.id)
  let job ← job.releaseClaim claimedJob.workerId claimedJob.claimToken now
  return ((), { jobs := [job] })

theorem claimAvailable_eq_ok {db : Database} {workerId : JString} {batchSize leaseDuration : ℤ}
    {now : Instant} {tokens : Long → JString} {locked : List Long}
    {claims : List ClaimedReceiptJob} {changes : Database.Changes}
    (h : claimAvailable db workerId batchSize leaseDuration now tokens locked =
      .ok (claims, changes)) :
    ∃ claimed, (∀ job' ∈ claimed, ∃ job, db.findJob job'.id = some job ∧
        job.claim workerId (tokens job.id) now (now + leaseDuration) = .ok job') ∧
      (claimed.map ReceiptExtractionJob.id).Nodup ∧
      List.Forall₂ (fun job' claim => toClaimedJob db job' = .ok claim) claimed claims ∧
      changes = {
        jobs := claimed
        events := claimed.map (claimedEvent workerId now (now + leaseDuration)) } := by
  simp only [claimAvailable, bind_eq_ok, pure_eq_ok] at h
  obtain ⟨_, -, claimed, hclaimed, claims, hclaims, h⟩ := h
  obtain ⟨rfl, rfl⟩ := Prod.mk.inj h
  have hforall := forall₂_of_mapM_eq_ok hclaimed
  have hid : ∀ {job job' : ReceiptExtractionJob},
      job.claim workerId (tokens job.id) now (now + leaseDuration) = .ok job' →
        job'.id = job.id := by
    intro job job' hclaim
    rw [(ReceiptExtractionJob.claim_eq_ok hclaim).2]
  refine ⟨claimed, ?_, ?_, forall₂_of_mapM_eq_ok hclaims, rfl⟩
  · intro job' hmem
    obtain ⟨job, hjob, hclaim⟩ := exists_of_forall₂_right hforall hmem
    exact ⟨job, by
      rw [hid hclaim]
      exact Table.find?_of_mem (mem_lockAvailableJobs hjob), hclaim⟩
  · have hids : claimed.map ReceiptExtractionJob.id =
        (lockAvailableJobs db now batchSize locked).map ReceiptExtractionJob.id :=
      (map_eq_of_forall₂ hforall fun _ _ hclaim => (hid hclaim).symm).symm
    rw [hids]
    exact lockAvailableJobs_nodup db now batchSize locked

theorem release_eq_ok {db : Database} {claimedJob : ClaimedReceiptJob} {now : Instant} {u : Unit}
    {changes : Database.Changes} (h : release db claimedJob now = .ok (u, changes)) :
    ∃ job job', db.findJob claimedJob.jobId = some job ∧
      job.releaseClaim claimedJob.workerId claimedJob.claimToken now = .ok job' ∧
      changes = { jobs := [job'] } := by
  simp only [release, bind_eq_ok, orElseThrow_eq_ok, pure_eq_ok] at h
  obtain ⟨job, hjob, _, -, job', hrelease, h⟩ := h
  exact ⟨job, job', hjob, hrelease, (Prod.mk.inj h).2.symm⟩

end ReceiptJobClaimService

namespace ExpiredJobRecoveryService

def recoveryDetails (job : ReceiptExtractionJob) : List (String × Detail) :=
  (job.lockedBy.map fun workerId => ("previousWorkerId", Detail.text workerId)).toList ++
    (job.leaseUntil.map fun leaseUntil =>
      ("expiredLeaseUntil", Detail.instant leaseUntil)).toList ++
    [("attemptCount", .number job.attemptCount)]

def recoveredEvent (now : Instant) (job : ReceiptExtractionJob) : AuditEvent :=
  systemEvent job.receiptId now .extractionJobRecovered none none (recoveryDetails job)

def recoverExpired (db : Database) (batchSize : ℤ) (now : Instant) (locked : List Long) :
    Except Failure (Unit × Database.Changes) := do
  throwIf (batchSize ≤ 0) (.illegalArgument "batchSize는 1 이상이어야 합니다.")
  let expiredJobs := lockExpiredJobs db now batchSize locked
  let recovered ← expiredJobs.mapM fun job => job.recoverExpiredLease now
  return ((), { jobs := recovered, events := expiredJobs.map (recoveredEvent now) })

theorem recoverExpired_eq_ok {db : Database} {batchSize : ℤ} {now : Instant}
    {locked : List Long} {u : Unit} {changes : Database.Changes}
    (h : recoverExpired db batchSize now locked = .ok (u, changes)) :
    ∃ recovered events, (∀ job' ∈ recovered, ∃ job, db.findJob job'.id = some job ∧
        job.recoverExpiredLease now = .ok job') ∧
      (∀ event ∈ events, event.action = .extractionJobRecovered ∧ event.newStatus = none ∧
        ∃ job' ∈ recovered, event.receiptId = job'.receiptId) ∧
      changes = { jobs := recovered, events := events } := by
  simp only [recoverExpired, bind_eq_ok, pure_eq_ok] at h
  obtain ⟨_, -, recovered, hrecovered, h⟩ := h
  refine ⟨recovered, _, ?_, ?_, (Prod.mk.inj h).2.symm⟩
  · intro job' hmem
    obtain ⟨job, hjob, hrecover⟩ :=
      exists_of_forall₂_right (forall₂_of_mapM_eq_ok hrecovered) hmem
    refine ⟨job, ?_, hrecover⟩
    rw [(ReceiptExtractionJob.recoverExpiredLease_eq_ok hrecover).2.2]
    exact Table.find?_of_mem (mem_lockExpiredJobs hjob)
  · intro event hmem
    obtain ⟨job, hjob, rfl⟩ := List.mem_map.mp hmem
    obtain ⟨job', hjob', hrecover⟩ :=
      exists_of_forall₂_left (forall₂_of_mapM_eq_ok hrecovered) hjob
    exact ⟨rfl, rfl, job', hjob', by
      rw [(ReceiptExtractionJob.recoverExpiredLease_eq_ok hrecover).2.2]; rfl⟩

end ExpiredJobRecoveryService

/-! ## Outcomes of an extraction -/

namespace ReceiptExtractionLifecycleService

open ValidationEngine ReceiptStatusRouter

def findReceipt (db : Database) (receiptId : Long) : Except Failure Receipt :=
  orElseThrow (db.findReceipt receiptId) (.receiptNotFound receiptId)

def findOwnedJob (db : Database) (claimedJob : ClaimedReceiptJob) :
    Except Failure ReceiptExtractionJob := do
  let job ← orElseThrow (db.findJob claimedJob.jobId)
    (.illegalState "영수증 추출 작업을 찾을 수 없습니다.")
  throwIf (job.receiptId ≠ claimedJob.receiptId ∨
      ¬ job.isOwnedBy claimedJob.workerId claimedJob.claimToken)
    (.jobOwnershipLost claimedJob.jobId)
  return job

def qualityDetails (quality : ImageQualityResult) : List (String × Detail) :=
  (quality.width.map fun width => ("width", Detail.number width)).toList ++
    (quality.height.map fun height => ("height", Detail.number height)).toList ++
    (quality.reason.map fun reason => ("reason", Detail.text reason)).toList

def extractionDetails (extraction : ExtractionResult) : List (String × Detail) :=
  [("provider", .text extraction.provider), ("model", .text extraction.model)] ++
    (extraction.data.map fun data => ("proposedData", Detail.data data)).toList

def retryDetails (job : ReceiptExtractionJob) (errorCode : JString) (nextRetryAt now : Instant) :
    List (String × Detail) :=
  [("errorCode", .text errorCode), ("attemptCount", .number job.attemptCount),
    ("nextAvailableAt", .instant nextRetryAt),
    ("delayMillis", .number ((nextRetryAt - now) / 1000000))]

def failureDetails (job : ReceiptExtractionJob) (errorCode : JString)
    (errorMessage : Option JString) : List (String × Detail) :=
  [("errorCode", .text errorCode)] ++
    (errorMessage.map fun message => ("error", Detail.text message)).toList ++
    [("attemptCount", .number job.attemptCount)]

/-- The business status of an image that did not pass the quality inspection. -/
def rejectedStatus (quality : ImageQualityResult) : ReceiptStatus :=
  if quality.status = .needsRecapture then .needsRecapture else .unreadable

def completeQualityRejection (db : Database) (claimedJob : ClaimedReceiptJob)
    (quality : ImageQualityResult) (now : Instant) :
    Except Failure (Receipt × Database.Changes) := do
  let job ← findOwnedJob db claimedJob
  let receipt ← findReceipt db claimedJob.receiptId
  let next := rejectedStatus quality
  let receipt := receipt.completeExtraction none [] next now
  let job ← job.complete claimedJob.workerId claimedJob.claimToken now
  return (receipt.flushed, {
    receipts := [receipt]
    jobs := [job]
    events := [systemEvent receipt.id now .qualityRejected none (some next)
      (qualityDetails quality)] })

def completeExtraction (db : Database) (claimedJob : ClaimedReceiptJob)
    (extraction : ExtractionResult) (extractedAt : Instant) (today : LocalDate)
    (completedAt : Instant) : Except Failure (Receipt × Database.Changes) := do
  let job ← findOwnedJob db claimedJob
  let receipt ← findReceipt db claimedJob.receiptId
  -- the flag of the stored job, not the copy in the claim
  let rules := validate today extraction.data job.duplicateDetected
  let next := route extraction.data rules
  let receipt := receipt.completeExtraction extraction.data rules next completedAt
  let job ← job.complete claimedJob.workerId claimedJob.claimToken completedAt
  return (receipt.flushed, {
    receipts := [receipt]
    jobs := [job]
    events := [
      systemEvent receipt.id extractedAt .extractionCompleted none none
        (extractionDetails extraction),
      systemEvent receipt.id completedAt .validationCompleted none (some next)
        [("rules", .rules rules)]] })

def scheduleRetry (db : Database) (claimedJob : ClaimedReceiptJob) (errorCode : JString)
    (errorMessage : Option JString) (requestedRetryAt now : Instant) :
    Except Failure (Receipt × Database.Changes) := do
  let job ← findOwnedJob db claimedJob
  let receipt ← findReceipt db claimedJob.receiptId
  let nextRetryAt := if now < requestedRetryAt then requestedRetryAt else now + 1000000
  let job ← job.scheduleRetry claimedJob.workerId claimedJob.claimToken nextRetryAt
    (some errorCode) errorMessage now
  return (receipt, {
    jobs := [job]
    events := [systemEvent receipt.id now .extractionRetryScheduled none none
      (retryDetails job errorCode nextRetryAt now)] })

def failExtraction (db : Database) (claimedJob : ClaimedReceiptJob) (errorCode : JString)
    (errorMessage : Option JString) (now : Instant) :
    Except Failure (Receipt × Database.Changes) := do
  let job ← findOwnedJob db claimedJob
  let receipt ← findReceipt db claimedJob.receiptId
  let receipt := receipt.completeExtraction none [] .manualEntry now
  let job ← job.fail claimedJob.workerId claimedJob.claimToken (some errorCode) errorMessage now
  return (receipt.flushed, {
    receipts := [receipt]
    jobs := [job]
    events := [systemEvent receipt.id now .extractionFailed none (some .manualEntry)
      (failureDetails job errorCode errorMessage)] })

/-! ## What a successful outcome has checked and written -/

variable {db : Database} {claimedJob : ClaimedReceiptJob} {result : Receipt}
variable {changes : Database.Changes}

@[simp] theorem findOwnedJob_eq_ok {job : ReceiptExtractionJob} :
    findOwnedJob db claimedJob = .ok job ↔
      db.findJob claimedJob.jobId = some job ∧ job.receiptId = claimedJob.receiptId ∧
        job.isOwnedBy claimedJob.workerId claimedJob.claimToken := by
  simp only [findOwnedJob, bind_eq_ok, orElseThrow_eq_ok, throwIf_eq_ok, pure_eq_ok]
  constructor
  · intro hreleased
    obtain ⟨job, hfound, _, hguard, rfl⟩ := hreleased
    exact ⟨hfound, by tauto, by tauto⟩
  · intro hjob
    obtain ⟨hfound, hreceipt, howned⟩ := hjob
    exact ⟨job, hfound, (), by tauto, rfl⟩

theorem completeQualityRejection_eq_ok {quality : ImageQualityResult} {now : Instant}
    (h : completeQualityRejection db claimedJob quality now = .ok (result, changes)) :
    ∃ job row job', db.findJob claimedJob.jobId = some job ∧
      job.receiptId = claimedJob.receiptId ∧ db.receiptRow claimedJob.receiptId = some row ∧
      job.complete claimedJob.workerId claimedJob.claimToken now = .ok job' ∧
      changes = {
        receipts := [row.reread.completeExtraction none [] (rejectedStatus quality) now]
        jobs := [job']
        events := [systemEvent row.id now .qualityRejected none
          (some (rejectedStatus quality)) (qualityDetails quality)] } := by
  simp only [completeQualityRejection, findReceipt, bind_eq_ok, findOwnedJob_eq_ok,
    orElseThrow_eq_ok, Database.findReceipt_eq_some, pure_eq_ok] at h
  obtain ⟨job, ⟨hjob, hreceiptId, -⟩, _, ⟨row, hrow, rfl⟩, job', hcomplete, h⟩ := h
  obtain ⟨rfl, rfl⟩ := Prod.mk.inj h
  exact ⟨job, row, job', hjob, hreceiptId, hrow, hcomplete, rfl⟩

theorem completeExtraction_eq_ok {extraction : ExtractionResult} {extractedAt : Instant}
    {today : LocalDate} {completedAt : Instant}
    (h : completeExtraction db claimedJob extraction extractedAt today completedAt =
      .ok (result, changes)) :
    ∃ job row job' rules, db.findJob claimedJob.jobId = some job ∧
      job.receiptId = claimedJob.receiptId ∧ db.receiptRow claimedJob.receiptId = some row ∧
      job.complete claimedJob.workerId claimedJob.claimToken completedAt = .ok job' ∧
      rules = validate today extraction.data job.duplicateDetected ∧
      changes = {
        receipts := [row.reread.completeExtraction extraction.data rules
          (route extraction.data rules) completedAt]
        jobs := [job']
        events := [
          systemEvent row.id extractedAt .extractionCompleted none none
            (extractionDetails extraction),
          systemEvent row.id completedAt .validationCompleted none
            (some (route extraction.data rules)) [("rules", .rules rules)]] } := by
  simp only [completeExtraction, findReceipt, bind_eq_ok, findOwnedJob_eq_ok,
    orElseThrow_eq_ok, Database.findReceipt_eq_some, pure_eq_ok] at h
  obtain ⟨job, ⟨hjob, hreceiptId, -⟩, _, ⟨row, hrow, rfl⟩, job', hcomplete, h⟩ := h
  obtain ⟨rfl, rfl⟩ := Prod.mk.inj h
  exact ⟨job, row, job', _, hjob, hreceiptId, hrow, hcomplete, rfl, rfl⟩

theorem scheduleRetry_eq_ok {errorCode : JString} {errorMessage : Option JString}
    {requestedRetryAt now : Instant}
    (h : scheduleRetry db claimedJob errorCode errorMessage requestedRetryAt now =
      .ok (result, changes)) :
    ∃ job row job' nextRetryAt, db.findJob claimedJob.jobId = some job ∧
      job.receiptId = claimedJob.receiptId ∧ db.receiptRow claimedJob.receiptId = some row ∧
      job.scheduleRetry claimedJob.workerId claimedJob.claimToken nextRetryAt (some errorCode)
        errorMessage now = .ok job' ∧
      changes = {
        jobs := [job']
        events := [systemEvent row.id now .extractionRetryScheduled none none
          (retryDetails job' errorCode nextRetryAt now)] } := by
  simp only [scheduleRetry, findReceipt, bind_eq_ok, findOwnedJob_eq_ok, orElseThrow_eq_ok,
    Database.findReceipt_eq_some, pure_eq_ok] at h
  obtain ⟨job, ⟨hjob, hreceiptId, -⟩, _, ⟨row, hrow, rfl⟩, job', hretry, h⟩ := h
  obtain ⟨rfl, rfl⟩ := Prod.mk.inj h
  exact ⟨job, row, job', _, hjob, hreceiptId, hrow, hretry, rfl⟩

theorem failExtraction_eq_ok {errorCode : JString} {errorMessage : Option JString}
    {now : Instant}
    (h : failExtraction db claimedJob errorCode errorMessage now = .ok (result, changes)) :
    ∃ job row job', db.findJob claimedJob.jobId = some job ∧
      job.receiptId = claimedJob.receiptId ∧ db.receiptRow claimedJob.receiptId = some row ∧
      job.fail claimedJob.workerId claimedJob.claimToken (some errorCode) errorMessage now =
        .ok job' ∧
      changes = {
        receipts := [row.reread.completeExtraction none [] .manualEntry now]
        jobs := [job']
        events := [systemEvent row.id now .extractionFailed none (some .manualEntry)
          (failureDetails job' errorCode errorMessage)] } := by
  simp only [failExtraction, findReceipt, bind_eq_ok, findOwnedJob_eq_ok, orElseThrow_eq_ok,
    Database.findReceipt_eq_some, pure_eq_ok] at h
  obtain ⟨job, ⟨hjob, hreceiptId, -⟩, _, ⟨row, hrow, rfl⟩, job', hfail, h⟩ := h
  obtain ⟨rfl, rfl⟩ := Prod.mk.inj h
  exact ⟨job, row, job', hjob, hreceiptId, hrow, hfail, rfl⟩

end ReceiptExtractionLifecycleService

end ReceiptReview
