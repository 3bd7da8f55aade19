import ReceiptReview.Model.JobMethods

/-!
# The representation invariant of jobs

Whatever sequence of its methods is called on a job, with whatever arguments,
its fields agree with its status.  The methods guard themselves differently and
reset different fields; the invariant is what all of them keep.  The counter of
the attempts is an `int`, so its value is exact below 2^31 claims.
-/

namespace ReceiptReview

open Java Java.Method

/-- A job after a sequence of calls and what they returned or threw, the newest first. -/
inductive JobHistory : List (JobCall × Except Failure Unit) → ReceiptExtractionJob → Prop
  | new (receiptId : Long) (imageStorageKey : JString) (now : Instant) :
      JobHistory [] (.new receiptId imageStorageKey now)
  | called {history : List (JobCall × Except Failure Unit)} {job : ReceiptExtractionJob}
      (h : JobHistory history job) (call : JobCall) :
      JobHistory ((call, (call.method.call job).1) :: history) (call.method.call job).2

/-- A claim that did not throw. -/
def isSuccessfulClaim : JobCall × Except Failure Unit → Bool
  | (call, .ok ()) => call.isClaim
  | (_, .error _) => false

namespace ExtractionJobStatus

/-- The changes of status that the methods make. -/
inductive Next : ExtractionJobStatus → ExtractionJobStatus → Prop
  | claimed : Next .queued .processing
  | claimedAgain : Next .retryWait .processing
  | completed : Next .processing .completed
  | failed : Next .processing .failed
  | retryScheduled : Next .processing .retryWait
  | requeued : Next .processing .queued

/-- The job has its last outcome. -/
def isFinished : ExtractionJobStatus → Bool
  | completed | failed => true
  | queued | processing | retryWait => false

end ExtractionJobStatus

/-- The fields of a job agree with its status. -/
structure ReceiptExtractionJob.WellFormed (job : ReceiptExtractionJob) : Prop where
  locked : job.status = .processing →
    job.lockedBy.isSome ∧ job.leaseUntil.isSome ∧ job.claimToken.isSome
  unlocked : job.status ≠ .processing →
    job.lockedBy = none ∧ job.leaseUntil = none ∧ job.claimToken = none
  finished : job.completedAt.isSome ↔ job.status.isFinished
  attempted : job.status ≠ .queued → 0 < job.attemptCount
  message : ∀ text, job.lastErrorMessage = some text → text.length ≤ 1000

/-- What one call does to the job. -/
structure JobCall.Effect (call : JobCall) (job : ReceiptExtractionJob)
    (outcome : Except Failure Unit) (after : ReceiptExtractionJob) : Prop where
  atomic : ∀ e, outcome = .error e → after = job
  status : after.status = job.status ∨ job.status.Next after.status
  attempts : after.attemptCount =
    job.attemptCount + if isSuccessfulClaim (call, outcome) then 1 else 0
  duplicate : after.duplicateDetected = (job.duplicateDetected || call.isMark)
  wellFormed : job.WellFormed → after.WellFormed

namespace ReceiptExtractionJob

variable {job after : ReceiptExtractionJob} {now : Instant} {call : JobCall}

theorem length_truncate {value : Option JString} {maxLength : ℕ} {text : JString}
    (h : truncate value maxLength = some text) : text.length ≤ maxLength := by
  cases value with
  | none => simp [truncate] at h
  | some value =>
      simp only [truncate] at h
      split at h
      · cases h
        assumption
      · cases h
        exact List.length_take_le _ _

theorem wellFormed_new (receiptId : Long) (imageStorageKey : JString) (now : Instant) :
    (new receiptId imageStorageKey now).WellFormed := by
  constructor <;> simp [new, ExtractionJobStatus.isFinished]

/-- A job that leaves PROCESSING is unlocked, and it is complete when its new status is final. -/
theorem WellFormed.unlock (h : job.WellFormed) (hprocessing : job.status = .processing)
    (hstatus : after.status ≠ .processing) (hlocked : after.lockedBy = none)
    (hlease : after.leaseUntil = none) (htoken : after.claimToken = none)
    (hfinished : after.completedAt.isSome ↔ after.status.isFinished)
    (hattempts : after.attemptCount = job.attemptCount)
    (hmessage : ∀ text, after.lastErrorMessage = some text → text.length ≤ 1000) :
    after.WellFormed where
  locked := fun hprocessing' => absurd hprocessing' hstatus
  unlocked := fun _ => ⟨hlocked, hlease, htoken⟩
  finished := hfinished
  attempted := fun _ => by
    rw [hattempts]
    exact h.attempted (by simp [hprocessing])
  message := hmessage

/-- A job in PROCESSING has not been completed. -/
theorem WellFormed.not_completed (h : job.WellFormed) (hprocessing : job.status = .processing) :
    job.completedAt = none := by
  rw [← Option.not_isSome_iff_eq_none, h.finished, hprocessing]
  simp [ExtractionJobStatus.isFinished]

end ReceiptExtractionJob

open ReceiptExtractionJob

variable {job after : ReceiptExtractionJob} {call : JobCall}
variable {history : List (JobCall × Except Failure Unit)}

/-! ## One call -/

/-- A call that unlocks the job neither counts an attempt nor marks a duplicate. -/
theorem JobCall.Effect.of_unlock (hnext : job.status.Next after.status)
    (hclaim : call.isClaim = false) (hmark : call.isMark = false)
    (hattempts : after.attemptCount = job.attemptCount)
    (hduplicate : after.duplicateDetected = job.duplicateDetected)
    (hwellFormed : job.WellFormed → after.WellFormed) : call.Effect job (.ok ()) after where
  atomic := fun _ h => absurd h (by simp)
  status := .inr hnext
  attempts := by simp [isSuccessfulClaim, hclaim, hattempts]
  duplicate := by simp [hmark, hduplicate]
  wellFormed := hwellFormed

/-- The effect of a change that a call computes. -/
theorem JobCall.effect_of_ok (h : call.next job = .ok after) : call.Effect job (.ok ()) after := by
  cases call with
  | claim workerId claimToken now newLeaseUntil =>
      obtain ⟨hwaiting, rfl⟩ := claim_eq_ok h
      refine ⟨fun _ h => absurd h (by simp), .inr ?_, rfl, by simp [isMark], fun hjob => ?_⟩
      · -- a queued job and one that waits for a retry are claimed alike
        rcases hwaiting with hqueued | hretry
        · rw [hqueued]
          exact .claimed
        · rw [hretry]
          exact .claimedAgain
      · exact ⟨fun _ => ⟨rfl, rfl, rfl⟩, fun hne => absurd rfl hne, by
          simp [ExtractionJobStatus.isFinished], fun _ => Nat.succ_pos _, hjob.message⟩
  | complete workerId claimToken now =>
      obtain ⟨howned, rfl⟩ := complete_eq_ok h
      have hprocessing := (isOwnedBy_iff.mp howned).1
      refine .of_unlock (hprocessing ▸ .completed) rfl rfl rfl rfl fun hjob => ?_
      exact hjob.unlock hprocessing (by simp) rfl rfl rfl (by simp [ExtractionJobStatus.isFinished])
        rfl hjob.message
  | fail workerId claimToken errorCode errorMessage now =>
      obtain ⟨howned, rfl⟩ := fail_eq_ok h
      have hprocessing := (isOwnedBy_iff.mp howned).1
      refine .of_unlock (hprocessing ▸ .failed) rfl rfl rfl rfl fun hjob => ?_
      exact hjob.unlock hprocessing (by simp) rfl rfl rfl (by simp [ExtractionJobStatus.isFinished])
        rfl fun _ => length_truncate
  | scheduleRetry workerId claimToken nextAvailableAt errorCode errorMessage now =>
      cases nextAvailableAt with
      | none =>
          -- the method requires the time of the next attempt
          simp only [next, Outcome.bind_eq_ok] at h
          obtain ⟨-, -, h⟩ := h
          exact absurd h (by simp)
      | some nextAvailableAt =>
          obtain ⟨howned, rfl⟩ := scheduleRetry_eq_ok h
          have hprocessing := (isOwnedBy_iff.mp howned).1
          refine .of_unlock (hprocessing ▸ .retryScheduled) rfl rfl rfl rfl
            fun hjob => ?_
          exact hjob.unlock hprocessing (by simp) rfl rfl rfl
            (by simp [ExtractionJobStatus.isFinished]) rfl fun _ => length_truncate
  | recoverExpiredLease now =>
      obtain ⟨hprocessing, -, rfl⟩ := recoverExpiredLease_eq_ok h
      refine .of_unlock (hprocessing ▸ .requeued) rfl rfl rfl rfl fun hjob => ?_
      exact hjob.unlock hprocessing (by simp) rfl rfl rfl
        (by simp [ExtractionJobStatus.isFinished, hjob.not_completed hprocessing]) rfl hjob.message
  | releaseClaim workerId claimToken now =>
      obtain ⟨howned, rfl⟩ := releaseClaim_eq_ok h
      have hprocessing := (isOwnedBy_iff.mp howned).1
      refine .of_unlock (hprocessing ▸ .requeued) rfl rfl rfl rfl fun hjob => ?_
      exact hjob.unlock hprocessing (by simp) rfl rfl rfl
        (by simp [ExtractionJobStatus.isFinished, hjob.not_completed hprocessing]) rfl hjob.message
  | markDuplicate now =>
      cases h
      refine ⟨fun _ h => absurd h (by simp), .inl rfl, rfl,
        by simp [ReceiptExtractionJob.markDuplicate, isMark], ?_⟩
      exact fun hjob => ⟨hjob.locked, hjob.unlocked, hjob.finished, hjob.attempted, hjob.message⟩

/-- The flag is the only field that is set without a test. -/
theorem JobCall.isMark_of_error {e : Failure} (h : call.next job = .error e) :
    call.isMark = false := by
  cases call <;> first | rfl | simp [next] at h

/-- A call has its effect on any job. -/
theorem JobCall.effect (call : JobCall) (job : ReceiptExtractionJob) :
    call.Effect job (call.method.call job).1 (call.method.call job).2 := by
  have himplements := call.implements
  cases houtcome : (call.method.call job).1 with
  | ok =>
      exact effect_of_ok (himplements.next_eq_ok houtcome)
  | error e =>
      have hmark := isMark_of_error (himplements.next_eq_error houtcome)
      rw [himplements.unchanged houtcome]
      exact ⟨fun _ _ => rfl, .inl rfl, rfl, by simp [hmark], id⟩

/-! ## Any sequence of calls -/

theorem JobHistory.wellFormed (h : JobHistory history job) : job.WellFormed := by
  induction h with
  | new receiptId imageStorageKey now => exact wellFormed_new receiptId imageStorageKey now
  | called _ call ih => exact (call.effect _).wellFormed ih

theorem JobHistory.attemptCount_eq (h : JobHistory history job) :
    job.attemptCount = history.countP isSuccessfulClaim := by
  induction h with
  | new => rfl
  | called _ call ih => rw [(call.effect _).attempts, List.countP_cons, ih]

theorem JobHistory.duplicateDetected_iff (h : JobHistory history job) :
    job.duplicateDetected = history.any (·.1.isMark) := by
  induction h with
  | new => rfl
  | called _ call ih => rw [(call.effect _).duplicate, List.any_cons, ih, Bool.or_comm]

/-- The fields of a job agree with its status after any calls, and each further call is atomic and
changes the status only along the life of a job. -/
theorem job_representation (h : JobHistory history job) :
    job.WellFormed ∧ job.attemptCount = history.countP isSuccessfulClaim ∧
      job.duplicateDetected = history.any (·.1.isMark) ∧
      ∀ call : JobCall, call.Effect job (call.method.call job).1 (call.method.call job).2 :=
  ⟨h.wellFormed, h.attemptCount_eq, h.duplicateDetected_iff, fun call => call.effect job⟩

/-- A worker claims a job and reports a failure that it does not own; the claim is counted. -/
theorem job_representation_example :
    let job := ReceiptExtractionJob.new 1 [] 0
    let claimedJob := ((JobCall.claim [0x77] [0x74] 0 60).method.call job).2
    let after := ((JobCall.fail (some [0x77]) none none none 1).method.call claimedJob).2
    after.WellFormed ∧ after.attemptCount = 1 := by
  intro job claimedJob after
  have hhistory := JobHistory.called (.called (.new 1 [] 0) (.claim [0x77] [0x74] 0 60))
    (.fail (some [0x77]) none none none 1)
  exact ⟨(job_representation hhistory).1, (job_representation hhistory).2.1⟩

end ReceiptReview
