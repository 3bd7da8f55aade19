import ReceiptReview.Model.Failure
import ReceiptReview.Program.Outcome

/-!
# Extraction jobs

The job entity with its seven mutators, and the copy of a claim that a worker
takes away from the claim transaction.  A mutator either throws before it has
assigned a field or assigns all of its fields.
-/

namespace ReceiptReview

open Java Store Outcome

/-- The technical state of an extraction, apart from the business status. -/
inductive ExtractionJobStatus
  | queued
  | processing
  | retryWait
  | completed
  | failed
  deriving DecidableEq, Repr

/-- The job still has an extraction outcome to deliver. -/
def ExtractionJobStatus.isPending : ExtractionJobStatus → Bool
  | queued | processing | retryWait => true
  | completed | failed => false

/-- A row of `receipt_extraction_jobs`. -/
structure ReceiptExtractionJob where
  id : Long
  version : ℕ
  receiptId : Long
  status : ExtractionJobStatus
  imageStorageKey : JString
  duplicateDetected : Bool
  attemptCount : ℕ
  availableAt : Instant
  startedAt : Option Instant
  completedAt : Option Instant
  lockedBy : Option JString
  leaseUntil : Option Instant
  claimToken : Option JString
  lastErrorCode : Option JString
  lastErrorMessage : Option JString
  createdAt : Instant
  updatedAt : Instant
  deriving DecidableEq, Repr

instance : Entity ReceiptExtractionJob where
  key := ReceiptExtractionJob.id
  version := ReceiptExtractionJob.version
  withVersion job version := { job with version }
  key_withVersion _ _ := rfl
  version_withVersion _ _ := rfl

@[simp] theorem ReceiptExtractionJob.key_eq (job : ReceiptExtractionJob) :
    Entity.key job = job.id := rfl

@[simp] theorem ReceiptExtractionJob.version_eq (job : ReceiptExtractionJob) :
    Entity.version job = job.version := rfl

@[simp] theorem ReceiptExtractionJob.withVersion_eq (job : ReceiptExtractionJob) (version : ℕ) :
    Entity.withVersion job version = { job with version } := rfl

/-- What a worker knows of a job after the claim transaction has committed. -/
structure ClaimedReceiptJob where
  jobId : Long
  receiptId : Long
  jobVersion : ℕ
  attemptCount : ℕ
  workerId : Option JString
  claimToken : Option JString
  leaseUntil : Option Instant
  imageStorageKey : JString
  contentType : Option JString
  fileName : Option JString
  duplicateDetected : Bool
  deriving DecidableEq, Repr

namespace ReceiptExtractionJob

/-- The constructor; the insertion sets the key. -/
def new (receiptId : Long) (imageStorageKey : JString) (now : Instant) :
    ReceiptExtractionJob where
  id := unsaved
  version := 0
  receiptId := receiptId
  status := .queued
  imageStorageKey := imageStorageKey
  duplicateDetected := false
  attemptCount := 0
  availableAt := now
  startedAt := none
  completedAt := none
  lockedBy := none
  leaseUntil := none
  claimToken := none
  lastErrorCode := none
  lastErrorMessage := none
  createdAt := now
  updatedAt := now

def truncate (value : Option JString) (maxLength : ℕ) : Option JString :=
  match value with
  | none => none
  | some value => if value.length ≤ maxLength then some value else some (value.take maxLength)

def isOwnedBy (job : ReceiptExtractionJob) (workerId claimToken : Option JString) : Bool :=
  job.status = .processing && job.lockedBy = workerId && job.claimToken = claimToken

def requireOwnership (job : ReceiptExtractionJob) (workerId claimToken : Option JString) :
    Except Failure Unit :=
  if job.isOwnedBy workerId claimToken then .ok () else .error (.jobOwnershipLost job.id)

def claim (job : ReceiptExtractionJob) (workerId claimToken : JString)
    (now newLeaseUntil : Instant) : Except Failure ReceiptExtractionJob :=
  if job.status ≠ .queued ∧ job.status ≠ .retryWait then
    .error (.illegalState "대기 중인 추출 작업만 시작할 수 있습니다.")
  else
    .ok { job with
      status := .processing
      lockedBy := some workerId
      claimToken := some claimToken
      leaseUntil := some newLeaseUntil
      attemptCount := job.attemptCount + 1
      startedAt := some now
      completedAt := none
      updatedAt := now }

def complete (job : ReceiptExtractionJob) (workerId claimToken : Option JString)
    (now : Instant) : Except Failure ReceiptExtractionJob := do
  job.requireOwnership workerId claimToken
  return { job with
    status := .completed
    completedAt := some now
    lockedBy := none
    leaseUntil := none
    claimToken := none
    updatedAt := now }

def fail (job : ReceiptExtractionJob) (workerId claimToken : Option JString)
    (errorCode errorMessage : Option JString) (now : Instant) :
    Except Failure ReceiptExtractionJob := do
  job.requireOwnership workerId claimToken
  return { job with
    status := .failed
    lastErrorCode := errorCode
    lastErrorMessage := truncate errorMessage 1000
    completedAt := some now
    lockedBy := none
    leaseUntil := none
    claimToken := none
    updatedAt := now }

def scheduleRetry (job : ReceiptExtractionJob) (workerId claimToken : Option JString)
    (nextAvailableAt : Instant) (errorCode errorMessage : Option JString) (now : Instant) :
    Except Failure ReceiptExtractionJob := do
  job.requireOwnership workerId claimToken
  throwIf (nextAvailableAt ≤ now)
    (.illegalArgument "다음 재시도 시각은 현재보다 미래여야 합니다.")
  return { job with
    status := .retryWait
    availableAt := nextAvailableAt
    lastErrorCode := errorCode
    lastErrorMessage := truncate errorMessage 1000
    completedAt := none
    lockedBy := none
    leaseUntil := none
    claimToken := none
    updatedAt := now }

/-- The lease has run out before `now`. -/
def leaseExpired (job : ReceiptExtractionJob) (now : Instant) : Bool :=
  job.leaseUntil.any (· < now)

def recoverExpiredLease (job : ReceiptExtractionJob) (now : Instant) :
    Except Failure ReceiptExtractionJob :=
  if job.status ≠ .processing ∨ ¬ job.leaseExpired now then
    .error (.illegalState "Lease가 만료된 처리 작업만 복구할 수 있습니다.")
  else
    .ok { job with
      status := .queued
      availableAt := now
      lockedBy := none
      leaseUntil := none
      claimToken := none
      updatedAt := now }

def releaseClaim (job : ReceiptExtractionJob) (workerId claimToken : Option JString)
    (now : Instant) : Except Failure ReceiptExtractionJob := do
  job.requireOwnership workerId claimToken
  return { job with
    status := .queued
    availableAt := now
    lockedBy := none
    leaseUntil := none
    claimToken := none
    updatedAt := now }

def markDuplicate (job : ReceiptExtractionJob) (now : Instant) : ReceiptExtractionJob :=
  { job with duplicateDetected := true, updatedAt := now }

/-- The entity after its update was flushed. -/
def flushed (job : ReceiptExtractionJob) : ReceiptExtractionJob :=
  { job with version := job.version + 1 }

/-! ## What a successful mutation has checked and assigned -/

variable {job job' : ReceiptExtractionJob} {workerId claimToken : Option JString} {now : Instant}

@[simp] theorem requireOwnership_eq_ok {u : Unit} :
    job.requireOwnership workerId claimToken = .ok u ↔ job.isOwnedBy workerId claimToken := by
  unfold requireOwnership
  split <;> simp [*]

theorem isOwnedBy_iff : job.isOwnedBy workerId claimToken ↔
    job.status = .processing ∧ job.lockedBy = workerId ∧ job.claimToken = claimToken := by
  simp [isOwnedBy, and_assoc]

theorem claim_eq_ok {workerId claimToken : JString} {newLeaseUntil : Instant}
    (h : job.claim workerId claimToken now newLeaseUntil = .ok job') :
    (job.status = .queued ∨ job.status = .retryWait) ∧
      job' = { job with
        status := .processing
        lockedBy := some workerId
        claimToken := some claimToken
        leaseUntil := some newLeaseUntil
        attemptCount := job.attemptCount + 1
        startedAt := some now
        completedAt := none
        updatedAt := now } := by
  unfold claim at h
  split at h
  · exact absurd h (by simp)
  · rename_i hwaiting
    exact ⟨by tauto, (Except.ok.inj h).symm⟩

theorem complete_eq_ok (h : job.complete workerId claimToken now = .ok job') :
    job.isOwnedBy workerId claimToken ∧
      job' = { job with
        status := .completed
        completedAt := some now
        lockedBy := none
        leaseUntil := none
        claimToken := none
        updatedAt := now } := by
  simp only [complete, bind_eq_ok, requireOwnership_eq_ok, pure_eq_ok] at h
  obtain ⟨-, howned, h⟩ := h
  exact ⟨howned, h.symm⟩

theorem fail_eq_ok {errorCode errorMessage : Option JString}
    (h : job.fail workerId claimToken errorCode errorMessage now = .ok job') :
    job.isOwnedBy workerId claimToken ∧
      job' = { job with
        status := .failed
        lastErrorCode := errorCode
        lastErrorMessage := truncate errorMessage 1000
        completedAt := some now
        lockedBy := none
        leaseUntil := none
        claimToken := none
        updatedAt := now } := by
  simp only [fail, bind_eq_ok, requireOwnership_eq_ok, pure_eq_ok] at h
  obtain ⟨-, howned, h⟩ := h
  exact ⟨howned, h.symm⟩

theorem scheduleRetry_eq_ok {nextAvailableAt : Instant} {errorCode errorMessage : Option JString}
    (h : job.scheduleRetry workerId claimToken nextAvailableAt errorCode errorMessage now =
      .ok job') :
    job.isOwnedBy workerId claimToken ∧
      job' = { job with
        status := .retryWait
        availableAt := nextAvailableAt
        lastErrorCode := errorCode
        lastErrorMessage := truncate errorMessage 1000
        completedAt := none
        lockedBy := none
        leaseUntil := none
        claimToken := none
        updatedAt := now } := by
  simp only [scheduleRetry, bind_eq_ok, requireOwnership_eq_ok, pure_eq_ok] at h
  obtain ⟨-, howned, -, -, h⟩ := h
  exact ⟨howned, h.symm⟩

theorem recoverExpiredLease_eq_ok (h : job.recoverExpiredLease now = .ok job') :
    job.status = .processing ∧ job.leaseExpired now ∧
      job' = { job with
        status := .queued
        availableAt := now
        lockedBy := none
        leaseUntil := none
        claimToken := none
        updatedAt := now } := by
  unfold recoverExpiredLease at h
  split at h
  · exact absurd h (by simp)
  · rename_i hexpired
    exact ⟨by tauto, by tauto, (Except.ok.inj h).symm⟩

theorem releaseClaim_eq_ok (h : job.releaseClaim workerId claimToken now = .ok job') :
    job.isOwnedBy workerId claimToken ∧
      job' = { job with
        status := .queued
        availableAt := now
        lockedBy := none
        leaseUntil := none
        claimToken := none
        updatedAt := now } := by
  simp only [releaseClaim, bind_eq_ok, requireOwnership_eq_ok, pure_eq_ok] at h
  obtain ⟨-, howned, h⟩ := h
  exact ⟨howned, h.symm⟩

end ReceiptExtractionJob

end ReceiptReview
