import ReceiptReview.Java.Method
import ReceiptReview.Model.Job

/-!
# The methods of the job entity

The mutators of `ReceiptExtractionJob` with their statements in the order of the
source, one assignment at a time.  An exception in the middle of a method would
keep the assignments before it; since every method makes its tests first, each
one computes the change that `Job.lean` gives for it, or throws and leaves the
job as it was.
-/

namespace ReceiptReview

open Java Java.Method

/-- A call of a mutator, with its arguments. -/
inductive JobCall
  | claim (workerId claimToken : JString) (now newLeaseUntil : Instant)
  | complete (workerId claimToken : Option JString) (now : Instant)
  | fail (workerId claimToken errorCode errorMessage : Option JString) (now : Instant)
  | scheduleRetry (workerId claimToken : Option JString) (nextAvailableAt : Option Instant)
      (errorCode errorMessage : Option JString) (now : Instant)
  | recoverExpiredLease (now : Instant)
  | releaseClaim (workerId claimToken : Option JString) (now : Instant)
  | markDuplicate (now : Instant)
  deriving DecidableEq, Repr

def JobCall.isClaim : JobCall → Bool
  | claim .. => true
  | _ => false

def JobCall.isMark : JobCall → Bool
  | markDuplicate .. => true
  | _ => false

namespace JobMethods

/-- A method of the job entity. -/
abbrev JobMethod := Method Failure ReceiptExtractionJob Unit

/-! ## The assignments -/

def setStatus (status : ExtractionJobStatus) : JobMethod := assign ({ · with status })

def setAvailableAt (availableAt : Instant) : JobMethod := assign ({ · with availableAt })

def setStartedAt (startedAt : Option Instant) : JobMethod := assign ({ · with startedAt })

def setCompletedAt (completedAt : Option Instant) : JobMethod := assign ({ · with completedAt })

def setLockedBy (lockedBy : Option JString) : JobMethod := assign ({ · with lockedBy })

def setLeaseUntil (leaseUntil : Option Instant) : JobMethod := assign ({ · with leaseUntil })

def setClaimToken (claimToken : Option JString) : JobMethod := assign ({ · with claimToken })

def setLastErrorCode (lastErrorCode : Option JString) : JobMethod :=
  assign ({ · with lastErrorCode })

def setLastErrorMessage (lastErrorMessage : Option JString) : JobMethod :=
  assign ({ · with lastErrorMessage })

def setUpdatedAt (updatedAt : Instant) : JobMethod := assign ({ · with updatedAt })

/-! ## The methods -/

def requireOwnership (workerId claimToken : Option JString) : JobMethod :=
  throwIf (fun job => ¬ job.isOwnedBy workerId claimToken) (fun job => .jobOwnershipLost job.id)

def claim (workerId claimToken : JString) (now newLeaseUntil : Instant) : JobMethod := do
  throwIf (fun job => job.status ≠ .queued ∧ job.status ≠ .retryWait)
    (fun _ => .illegalState "대기 중인 추출 작업만 시작할 수 있습니다.")
  setStatus .processing
  setLockedBy workerId
  setClaimToken claimToken
  setLeaseUntil newLeaseUntil
  assign fun job => { job with attemptCount := job.attemptCount + 1 }
  setStartedAt now
  setCompletedAt none
  setUpdatedAt now

def complete (workerId claimToken : Option JString) (now : Instant) : JobMethod := do
  requireOwnership workerId claimToken
  setStatus .completed
  setCompletedAt now
  setLockedBy none
  setLeaseUntil none
  setClaimToken none
  setUpdatedAt now

def fail (workerId claimToken errorCode errorMessage : Option JString) (now : Instant) :
    JobMethod := do
  requireOwnership workerId claimToken
  setStatus .failed
  setLastErrorCode errorCode
  setLastErrorMessage (ReceiptExtractionJob.truncate errorMessage 1000)
  setCompletedAt now
  setLockedBy none
  setLeaseUntil none
  setClaimToken none
  setUpdatedAt now

def scheduleRetry (workerId claimToken : Option JString) (nextAvailableAt : Option Instant)
    (errorCode errorMessage : Option JString) (now : Instant) : JobMethod := do
  requireOwnership workerId claimToken
  throwIf (fun _ => ¬ nextAvailableAt.any (now < ·))
    (fun _ => .illegalArgument "다음 재시도 시각은 현재보다 미래여야 합니다.")
  setStatus .retryWait
  -- the test has excluded null
  setAvailableAt (nextAvailableAt.getD now)
  setLastErrorCode errorCode
  setLastErrorMessage (ReceiptExtractionJob.truncate errorMessage 1000)
  setCompletedAt none
  setLockedBy none
  setLeaseUntil none
  setClaimToken none
  setUpdatedAt now

def recoverExpiredLease (now : Instant) : JobMethod := do
  throwIf (fun job => job.status ≠ .processing ∨ ¬ job.leaseExpired now)
    (fun _ => .illegalState "Lease가 만료된 처리 작업만 복구할 수 있습니다.")
  setStatus .queued
  setAvailableAt now
  setLockedBy none
  setLeaseUntil none
  setClaimToken none
  setUpdatedAt now

def releaseClaim (workerId claimToken : Option JString) (now : Instant) : JobMethod := do
  requireOwnership workerId claimToken
  setStatus .queued
  setAvailableAt now
  setLockedBy none
  setLeaseUntil none
  setClaimToken none
  setUpdatedAt now

def markDuplicate (now : Instant) : JobMethod := do
  assign fun job => { job with duplicateDetected := true }
  setUpdatedAt now

end JobMethods

namespace JobCall

/-- The method that a call runs. -/
def method : JobCall → JobMethods.JobMethod
  | claim workerId claimToken now newLeaseUntil =>
      JobMethods.claim workerId claimToken now newLeaseUntil
  | complete workerId claimToken now => JobMethods.complete workerId claimToken now
  | fail workerId claimToken errorCode errorMessage now =>
      JobMethods.fail workerId claimToken errorCode errorMessage now
  | scheduleRetry workerId claimToken nextAvailableAt errorCode errorMessage now =>
      JobMethods.scheduleRetry workerId claimToken nextAvailableAt errorCode errorMessage now
  | recoverExpiredLease now => JobMethods.recoverExpiredLease now
  | releaseClaim workerId claimToken now => JobMethods.releaseClaim workerId claimToken now
  | markDuplicate now => JobMethods.markDuplicate now

/-- The change of the job that a call computes. -/
def next : JobCall → ReceiptExtractionJob → Except Failure ReceiptExtractionJob
  | claim workerId claimToken now newLeaseUntil, job =>
      job.claim workerId claimToken now newLeaseUntil
  | complete workerId claimToken now, job => job.complete workerId claimToken now
  | fail workerId claimToken errorCode errorMessage now, job =>
      job.fail workerId claimToken errorCode errorMessage now
  | scheduleRetry workerId claimToken (some nextAvailableAt) errorCode errorMessage now, job =>
      job.scheduleRetry workerId claimToken nextAvailableAt errorCode errorMessage now
  | scheduleRetry workerId claimToken none _ _ _, job => do
      job.requireOwnership workerId claimToken
      .error (.illegalArgument "다음 재시도 시각은 현재보다 미래여야 합니다.")
  | recoverExpiredLease now, job => job.recoverExpiredLease now
  | releaseClaim workerId claimToken now, job => job.releaseClaim workerId claimToken now
  | markDuplicate now, job => .ok (job.markDuplicate now)

end JobCall

/-! ## The methods are atomic -/

section

open JobMethods

variable {workerId claimToken : Option JString} {now : Instant}

theorem tests_requireOwnership : Tests (requireOwnership workerId claimToken)
    fun job => job.requireOwnership workerId claimToken := by
  intro job
  rw [requireOwnership, tests_throwIf]
  by_cases howned : job.isOwnedBy workerId claimToken = true
  · simp [ReceiptExtractionJob.requireOwnership, howned]
  · simp [ReceiptExtractionJob.requireOwnership, howned]

/-- The assignments with which five of the methods end. -/
theorem assigns_unlocked :
    Assigns (do
      setLockedBy none
      setLeaseUntil none
      setClaimToken none
      setUpdatedAt now)
      fun job => { job with
        lockedBy := none, leaseUntil := none, claimToken := none, updatedAt := now } :=
  assigns_assign.seq (assigns_assign.seq (assigns_assign.seq assigns_assign))

theorem claim_implements {workerId claimToken : JString} {newLeaseUntil : Instant} :
    Implements (claim workerId claimToken now newLeaseUntil)
      (·.claim workerId claimToken now newLeaseUntil) := by
  refine tests_throwIf.implements
    (assigns_assign.seq <| assigns_assign.seq <| assigns_assign.seq <| assigns_assign.seq <|
      assigns_assign.seq <| assigns_assign.seq <| assigns_assign.seq assigns_assign).implements
    fun job => ?_
  unfold ReceiptExtractionJob.claim
  split <;> rfl

theorem complete_implements : Implements (complete workerId claimToken now)
    (·.complete workerId claimToken now) :=
  tests_requireOwnership.implements
    (assigns_assign.seq <| assigns_assign.seq assigns_unlocked).implements fun _ => rfl

theorem fail_implements {errorCode errorMessage : Option JString} :
    Implements (fail workerId claimToken errorCode errorMessage now)
      (·.fail workerId claimToken errorCode errorMessage now) :=
  tests_requireOwnership.implements
    (assigns_assign.seq <| assigns_assign.seq <| assigns_assign.seq <| assigns_assign.seq
      assigns_unlocked).implements fun _ => rfl

theorem scheduleRetry_implements {nextAvailableAt : Option Instant}
    {errorCode errorMessage : Option JString} :
    Implements (scheduleRetry workerId claimToken nextAvailableAt errorCode errorMessage now)
      (JobCall.scheduleRetry workerId claimToken nextAvailableAt errorCode errorMessage now).next :=
    by
  refine tests_requireOwnership.implements
    (tests_throwIf.implements
      (assigns_assign.seq <| assigns_assign.seq <| assigns_assign.seq <| assigns_assign.seq <|
        assigns_assign.seq assigns_unlocked).implements
      fun _ => rfl)
    fun job => ?_
  cases nextAvailableAt with
  | none => rfl
  | some nextAvailableAt =>
      have htest : (¬ (some nextAvailableAt).any (now < ·)) ↔ nextAvailableAt ≤ now := by simp
      simp only [JobCall.next, ReceiptExtractionJob.scheduleRetry, htest]
      rfl

theorem recoverExpiredLease_implements : Implements (recoverExpiredLease now)
    (·.recoverExpiredLease now) := by
  refine tests_throwIf.implements
    (assigns_assign.seq <| assigns_assign.seq assigns_unlocked).implements fun job => ?_
  unfold ReceiptExtractionJob.recoverExpiredLease
  split <;> rfl

theorem releaseClaim_implements : Implements (releaseClaim workerId claimToken now)
    (·.releaseClaim workerId claimToken now) :=
  tests_requireOwnership.implements
    (assigns_assign.seq <| assigns_assign.seq assigns_unlocked).implements fun _ => rfl

theorem markDuplicate_implements :
    Implements (markDuplicate now) fun job => .ok (job.markDuplicate now) :=
  (assigns_assign.seq assigns_assign).implements

end

/-- Each method makes its tests first, and then the assignments of its change. -/
theorem JobCall.implements (call : JobCall) : Implements call.method call.next := by
  cases call with
  | claim => exact claim_implements
  | complete => exact complete_implements
  | fail => exact fail_implements
  | scheduleRetry => exact scheduleRetry_implements
  | recoverExpiredLease => exact recoverExpiredLease_implements
  | releaseClaim => exact releaseClaim_implements
  | markDuplicate => exact markDuplicate_implements

end ReceiptReview
