import ReceiptReview.System.Operation

/-!
# Receipt cases

The abstract view of the system: a case is a receipt together with its
extraction job, and the system is a set of cases that evolve independently.
`Step` says what each operation does to one case, with all that the operation
has checked; `Reaches` collects the cases of the runs, each with its own part of
the audit log.

Nothing here mentions tables, snapshots or commits.  `Refinement.lean` connects
the two views: every commit of a run takes each case one step or leaves it
alone, whatever snapshot its transaction has read.
-/

namespace ReceiptReview

open Java Store CurrentEmployeeService ReceiptCommandService ReceiptPersistenceService
open ReceiptExtractionLifecycleService ValidationEngine ReceiptStatusRouter

/-- A receipt with its extraction job. -/
structure ReceiptCase where
  receipt : Receipt
  job : ReceiptExtractionJob
  deriving DecidableEq

namespace ReceiptCase

/-- One operation on one case, with the audit events it records for the case.  The receipt
of a case is the stored row; an operation that writes it starts from what it reads there. -/
inductive Step (employees : Table Employee) :
    Operation → ReceiptCase → List AuditEvent → ReceiptCase → Prop
  | claimed {x : ReceiptCase} {workerId : JString} {batchSize leaseDuration : ℤ} {now : Instant}
      {tokens : Long → JString} {locked : List Long} {job' : ReceiptExtractionJob}
      {events : List AuditEvent} :
      x.job.claim workerId (tokens x.job.id) now (now + leaseDuration) = .ok job' →
      (∀ event ∈ events, event.action = .extractionJobClaimed) →
      Step employees (.claimAvailable workerId batchSize leaseDuration now tokens locked) x events
        ⟨x.receipt, job'.flushed⟩
  | released {x : ReceiptCase} {claim : ClaimedReceiptJob} {now : Instant}
      {job' : ReceiptExtractionJob} :
      claim.jobId = x.job.id →
      x.job.releaseClaim claim.workerId claim.claimToken now = .ok job' →
      Step employees (.release claim now) x [] ⟨x.receipt, job'.flushed⟩
  | recovered {x : ReceiptCase} {batchSize : ℤ} {now : Instant} {locked : List Long}
      {job' : ReceiptExtractionJob} {events : List AuditEvent} :
      x.job.recoverExpiredLease now = .ok job' →
      (∀ event ∈ events, event.action = .extractionJobRecovered) →
      Step employees (.recoverExpired batchSize now locked) x events ⟨x.receipt, job'.flushed⟩
  | qualityRejected {x : ReceiptCase} {claim : ClaimedReceiptJob} {quality : ImageQualityResult}
      {now : Instant} {job' : ReceiptExtractionJob} :
      claim.jobId = x.job.id → claim.receiptId = x.receipt.id →
      x.job.complete claim.workerId claim.claimToken now = .ok job' →
      Step employees (.completeQualityRejection claim quality now) x
        [systemEvent x.receipt.id now .qualityRejected none (some (rejectedStatus quality))
          (qualityDetails quality)]
        ⟨(x.receipt.reread.completeExtraction none [] (rejectedStatus quality) now).flushed,
          job'.flushed⟩
  | extracted {x : ReceiptCase} {claim : ClaimedReceiptJob} {extraction : ExtractionResult}
      {extractedAt completedAt : Instant} {today : LocalDate} {job' : ReceiptExtractionJob}
      {rules : List RuleResult} :
      claim.jobId = x.job.id → claim.receiptId = x.receipt.id →
      x.job.complete claim.workerId claim.claimToken completedAt = .ok job' →
      rules = validate today extraction.data x.job.duplicateDetected →
      Step employees (.completeExtraction claim extraction extractedAt today completedAt) x
        [systemEvent x.receipt.id extractedAt .extractionCompleted none none
            (extractionDetails extraction),
          systemEvent x.receipt.id completedAt .validationCompleted none
            (some (route extraction.data rules)) [("rules", .rules rules)]]
        ⟨(x.receipt.reread.completeExtraction extraction.data rules (route extraction.data rules)
          completedAt).flushed, job'.flushed⟩
  | retryScheduled {x : ReceiptCase} {claim : ClaimedReceiptJob} {errorCode : JString}
      {errorMessage : Option JString} {requestedRetryAt nextRetryAt now : Instant}
      {job' : ReceiptExtractionJob} :
      claim.jobId = x.job.id → claim.receiptId = x.receipt.id →
      x.job.scheduleRetry claim.workerId claim.claimToken nextRetryAt (some errorCode)
        errorMessage now = .ok job' →
      Step employees (.scheduleRetry claim errorCode errorMessage requestedRetryAt now) x
        [systemEvent x.receipt.id now .extractionRetryScheduled none none
          (retryDetails job' errorCode nextRetryAt now)]
        ⟨x.receipt, job'.flushed⟩
  | failed {x : ReceiptCase} {claim : ClaimedReceiptJob} {errorCode : JString}
      {errorMessage : Option JString} {now : Instant} {job' : ReceiptExtractionJob} :
      claim.jobId = x.job.id → claim.receiptId = x.receipt.id →
      x.job.fail claim.workerId claim.claimToken (some errorCode) errorMessage now = .ok job' →
      Step employees (.failExtraction claim errorCode errorMessage now) x
        [systemEvent x.receipt.id now .extractionFailed none (some .manualEntry)
          (failureDetails job' errorCode errorMessage)]
        ⟨(x.receipt.reread.completeExtraction none [] .manualEntry now).flushed, job'.flushed⟩
  | duplicateDeferred {x : ReceiptCase} {now : Instant} {today : LocalDate} :
      x.job.duplicateDetected = false → x.receipt.status = none →
      Step employees (.markDuplicate x.receipt.id now today) x [deferredEvent x.receipt.id now]
        ⟨x.receipt, (x.job.markDuplicate now).flushed⟩
  | duplicateMarked {x : ReceiptCase} {now : Instant} {today : LocalDate}
      {previous next : ReceiptStatus} :
      x.job.duplicateDetected = false → x.receipt.status = some previous →
      next = (if isTerminal previous then previous
        else route x.receipt.reread.currentData
          (validate today x.receipt.reread.currentData true)) →
      Step employees (.markDuplicate x.receipt.id now today) x
        [duplicateEvent x.receipt.id now previous next]
        ⟨(x.receipt.reread.updateData x.receipt.reread.currentData
          (validate today x.receipt.reread.currentData true) next now).flushed,
          (x.job.markDuplicate now).flushed⟩
  | corrected {x : ReceiptCase} {session : Session} {expectedVersion : ℤ}
      {corrections : FieldCorrections} {today : LocalDate} {now : Instant} {employee : Employee} :
      getCurrentEmployee employees session = .ok employee →
      validateModifyPermission x.receipt employee = .ok () →
      ensureVersion x.receipt expectedVersion = .ok () →
      validateEditableStatus x.receipt = .ok () →
      Step employees (.correctFields session x.receipt.id expectedVersion corrections today now) x
        [correctedEvent employee x.receipt.reread corrections today now]
        ⟨(ReceiptCommandService.corrected employee x.receipt.reread corrections today now).flushed,
          x.job⟩
  | decided {x : ReceiptCase} {session : Session} {expectedVersion : ℤ}
      {decision : ReviewDecision} {note : Option JString} {now : Instant} {employee : Employee} :
      getCurrentEmployee employees session = .ok employee →
      validateReviewPermission x.receipt employee = .ok () →
      ensureVersion x.receipt expectedVersion = .ok () →
      validateEditableStatus x.receipt = .ok () →
      (decision = .approve → validateApproval x.receipt.reread = .ok ()) →
      Step employees (.decide session x.receipt.id expectedVersion decision note now) x
        [decidedEvent employee x.receipt decision note now]
        ⟨(x.receipt.reread.changeStatus (decidedStatus decision) now).flushed, x.job⟩

/-- The case that an intake creates. -/
def intake (receipt : Receipt) (imageStorageKey : JString) (receiptId jobId : Long)
    (createdAt : Instant) : ReceiptCase where
  receipt := { receipt with id := receiptId }
  job := { ReceiptExtractionJob.new receiptId imageStorageKey createdAt with id := jobId }

/-- The cases of the runs, each with the audit events recorded for it so far. -/
inductive Reaches (P : Platform) (employees : Table Employee) :
    ReceiptCase → List AuditEvent → Prop
  | created {receipt : Receipt} {imageStorageKey : JString} {idempotencyKey : Option JString}
      {auditEvents : List AuditEvent} {receiptId jobId : Long} {createdAt recordedAt : Instant} :
      (Operation.createQueued receipt imageStorageKey idempotencyKey auditEvents receiptId jobId
        createdAt recordedAt).Permitted P employees →
      Reaches P employees (intake receipt imageStorageKey receiptId jobId createdAt)
        (auditEvents.map (·.attachTo receiptId))
  | step {operation : Operation} {x x' : ReceiptCase} {log events : List AuditEvent} :
      Reaches P employees x log → operation.Permitted P employees →
      Step employees operation x events x' → Reaches P employees x' (log ++ events)

variable {employees : Table Employee} {operation : Operation} {x x' : ReceiptCase}
variable {events : List AuditEvent}

/-! ## What no step changes -/

/-- The part of a receipt that is fixed when it is created. -/
structure SameReceipt (a b : Receipt) : Prop where
  id : b.id = a.id
  ownerEmployeeId : b.ownerEmployeeId = a.ownerEmployeeId
  companyId : b.companyId = a.companyId
  imageSha256 : b.imageSha256 = a.imageSha256

/-- The part of a job that is fixed when it is created. -/
structure SameJob (a b : ReceiptExtractionJob) : Prop where
  id : b.id = a.id
  receiptId : b.receiptId = a.receiptId

theorem SameReceipt.trans {a b c : Receipt} (hab : SameReceipt a b) (hbc : SameReceipt b c) :
    SameReceipt a c :=
  ⟨hbc.id.trans hab.id, hbc.ownerEmployeeId.trans hab.ownerEmployeeId,
    hbc.companyId.trans hab.companyId, hbc.imageSha256.trans hab.imageSha256⟩

/-- What is read of a receipt has the same fixed part. -/
theorem SameReceipt.of_reread {row receipt : Receipt} (h : SameReceipt row receipt) :
    SameReceipt row.reread receipt :=
  ⟨h.id, h.ownerEmployeeId, h.companyId, h.imageSha256⟩

theorem Step.sameReceipt (h : Step employees operation x events x') :
    SameReceipt x.receipt x'.receipt := by
  cases h <;> exact ⟨rfl, rfl, rfl, rfl⟩

theorem Step.sameJob (h : Step employees operation x events x') : SameJob x.job x'.job := by
  cases h with
  | claimed hclaim =>
      rw [(ReceiptExtractionJob.claim_eq_ok hclaim).2]
      exact ⟨rfl, rfl⟩
  | released _ hrelease =>
      rw [(ReceiptExtractionJob.releaseClaim_eq_ok hrelease).2]
      exact ⟨rfl, rfl⟩
  | recovered hrecover =>
      rw [(ReceiptExtractionJob.recoverExpiredLease_eq_ok hrecover).2.2]
      exact ⟨rfl, rfl⟩
  | qualityRejected _ _ hcomplete | extracted _ _ hcomplete =>
      rw [(ReceiptExtractionJob.complete_eq_ok hcomplete).2]
      exact ⟨rfl, rfl⟩
  | retryScheduled _ _ hretry =>
      rw [(ReceiptExtractionJob.scheduleRetry_eq_ok hretry).2]
      exact ⟨rfl, rfl⟩
  | failed _ _ hfail =>
      rw [(ReceiptExtractionJob.fail_eq_ok hfail).2]
      exact ⟨rfl, rfl⟩
  | duplicateDeferred | duplicateMarked | corrected | decided => exact ⟨rfl, rfl⟩

/-! ## The two entities agree -/

/-- The receipt has no business status exactly while its job is pending, and a
duplicate that its rules report is flagged on the job. -/
structure Consistent (x : ReceiptCase) : Prop where
  status_iff : x.receipt.status = none ↔ x.job.status.isPending
  flagged : duplicateFailed x.receipt.ruleResults = true → x.job.duplicateDetected = true

/-- A job that is claimed has not delivered an outcome. -/
theorem Consistent.status_of_owned (hx : x.Consistent) {workerId claimToken : Option JString}
    (howned : x.job.isOwnedBy workerId claimToken) : x.receipt.status = none :=
  hx.status_iff.mpr (by rw [(ReceiptExtractionJob.isOwnedBy_iff.mp howned).1]; rfl)

/-- The extraction of a receipt with a status has ended. -/
theorem Consistent.ended (hx : x.Consistent) {status : ReceiptStatus}
    (hstatus : x.receipt.status = some status) : ¬ x.job.status.isPending := by
  rw [← hx.status_iff, hstatus]
  exact nofun

theorem some_status_of_editable {receipt : Receipt} (h : validateEditableStatus receipt = .ok ()) :
    ∃ status, receipt.status = some status ∧ status ≠ .approved ∧ status ≠ .rejected := by
  unfold validateEditableStatus at h
  split at h
  · exact absurd h (by simp)
  · exact absurd h (by simp)
  · exact absurd h (by simp)
  · rename_i status hnotApproved hnotRejected hstatus
    exact ⟨status, hstatus, hnotApproved, hnotRejected⟩

/-- One step of any operation keeps the two entities in agreement. -/
theorem Step.consistent (h : Step employees operation x events x') (hx : x.Consistent) :
    x'.Consistent := by
  cases h with
  | claimed hclaim =>
      obtain ⟨hwaiting, rfl⟩ := ReceiptExtractionJob.claim_eq_ok hclaim
      refine ⟨?_, hx.flagged⟩
      -- a job that is claimed was pending before and still is
      rw [hx.status_iff]
      rcases hwaiting with hwaiting | hwaiting <;>
        simp [ReceiptExtractionJob.flushed, hwaiting, ExtractionJobStatus.isPending]
  | released _ hrelease =>
      obtain ⟨howned, rfl⟩ := ReceiptExtractionJob.releaseClaim_eq_ok hrelease
      refine ⟨?_, hx.flagged⟩
      simp [hx.status_of_owned howned, ReceiptExtractionJob.flushed, ExtractionJobStatus.isPending]
  | recovered hrecover =>
      obtain ⟨hprocessing, -, rfl⟩ := ReceiptExtractionJob.recoverExpiredLease_eq_ok hrecover
      refine ⟨?_, hx.flagged⟩
      rw [hx.status_iff]
      simp [ReceiptExtractionJob.flushed, hprocessing, ExtractionJobStatus.isPending]
  | qualityRejected _ _ hcomplete =>
      -- an outcome ends the pending job and gives the receipt its first status
      obtain ⟨-, rfl⟩ := ReceiptExtractionJob.complete_eq_ok hcomplete
      exact ⟨by simp [Receipt.flushed, Receipt.completeExtraction, ReceiptExtractionJob.flushed,
        ExtractionJobStatus.isPending], by simp [Receipt.flushed, Receipt.completeExtraction,
        duplicateFailed]⟩
  | extracted _ _ hcomplete hrules =>
      obtain ⟨-, rfl⟩ := ReceiptExtractionJob.complete_eq_ok hcomplete
      refine ⟨by simp [Receipt.flushed, Receipt.completeExtraction, ReceiptExtractionJob.flushed,
        ExtractionJobStatus.isPending], ?_⟩
      -- the rules were told of the flag of this very job
      subst hrules
      simp [Receipt.flushed, Receipt.completeExtraction, ReceiptExtractionJob.flushed]
  | retryScheduled _ _ hretry =>
      -- the attempt has failed, but its job waits for another one
      obtain ⟨howned, rfl⟩ := ReceiptExtractionJob.scheduleRetry_eq_ok hretry
      refine ⟨?_, hx.flagged⟩
      simp [hx.status_of_owned howned, ReceiptExtractionJob.flushed, ExtractionJobStatus.isPending]
  | failed _ _ hfail =>
      obtain ⟨-, rfl⟩ := ReceiptExtractionJob.fail_eq_ok hfail
      exact ⟨by simp [Receipt.flushed, Receipt.completeExtraction, ReceiptExtractionJob.flushed,
        ExtractionJobStatus.isPending], by simp [Receipt.flushed, Receipt.completeExtraction,
        duplicateFailed]⟩
  | duplicateDeferred hflag hstatus => exact ⟨hx.status_iff, fun _ => rfl⟩
  | duplicateMarked hflag hstatus _ =>
      refine ⟨?_, fun _ => rfl⟩
      -- the receipt has a status, so its job has ended; a mark changes neither
      have hpending := hx.status_iff
      rw [hstatus] at hpending
      simpa [Receipt.flushed, Receipt.updateData, ReceiptExtractionJob.flushed,
        ReceiptExtractionJob.markDuplicate] using hpending
  | corrected _ _ _ heditable =>
      obtain ⟨status, hstatus, -, -⟩ := some_status_of_editable heditable
      have hpending := hx.status_iff
      rw [hstatus] at hpending
      refine ⟨by simpa [Receipt.flushed, ReceiptCommandService.corrected, Receipt.updateData]
        using hpending, ?_⟩
      -- the rules are evaluated anew under the flag of the old ones
      intro hfailed
      apply hx.flagged
      simpa [Receipt.flushed, ReceiptCommandService.corrected, Receipt.updateData] using hfailed
  | decided _ _ _ heditable _ =>
      -- an editable receipt has a status, and a decision gives it another one
      obtain ⟨status, hstatus, -, -⟩ := some_status_of_editable heditable
      have hpending := hx.status_iff
      rw [hstatus] at hpending
      exact ⟨by simpa [Receipt.flushed, Receipt.changeStatus] using hpending, hx.flagged⟩

variable {P : Platform} {log : List AuditEvent}

theorem Reaches.consistent (h : Reaches P employees x log) : x.Consistent := by
  induction h with
  | created hpermitted =>
      obtain ⟨call, contentType, now, rfl, -, -⟩ := hpermitted
      exact ⟨by simp [intake, ReceiptUploadService.acceptedReceipt, Receipt.new,
        ReceiptExtractionJob.new, ExtractionJobStatus.isPending], by
        simp [intake, ReceiptUploadService.acceptedReceipt, Receipt.new, duplicateFailed]⟩
  | step _ _ hstep ih => exact hstep.consistent ih

end ReceiptCase

end ReceiptReview
