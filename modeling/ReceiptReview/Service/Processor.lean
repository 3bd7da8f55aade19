import ReceiptReview.Program.Basic
import ReceiptReview.Service.Extraction

/-!
# Processing one claimed job

`ReceiptExtractionProcessor`: the run of one claim outside of any transaction.
It loads and inspects the image, calls the extractor, and reports the outcome
in one of the four lifecycle transactions.
-/

namespace ReceiptReview

open Java Store

structure ExtractionRequest where
  image : List UInt8
  contentType : Option JString
  fileName : Option JString
  deriving DecidableEq, Repr

/-- The requests of a processing run to the storage, the inspector, the
extractor, the clock and the lifecycle service. -/
inductive ProcessRequest
  | load (storageKey : JString)
  | inspect (image : List UInt8)
  | extract (request : ExtractionRequest)
  | now
  | completeQualityRejection (claimedJob : ClaimedReceiptJob) (quality : ImageQualityResult)
  | completeExtraction (claimedJob : ClaimedReceiptJob) (extraction : ExtractionResult)
      (extractedAt : Instant)
  | scheduleRetry (claimedJob : ClaimedReceiptJob) (errorCode : JString)
      (errorMessage : Option JString) (nextRetryAt : Instant)
  | failExtraction (claimedJob : ClaimedReceiptJob) (errorCode : JString)
      (errorMessage : Option JString)
  deriving DecidableEq, Repr

namespace ProcessRequest

/-- What a request returns when it does not throw. -/
@[reducible] def Result : ProcessRequest → Type
  | load _ => List UInt8
  | inspect _ => ImageQualityResult
  | extract _ => ExtractionResult
  | now => Instant
  | completeQualityRejection _ _ | completeExtraction _ _ _ | scheduleRetry _ _ _ _
  | failExtraction _ _ _ => Receipt

abbrev Answer (request : ProcessRequest) : Type := Except Failure request.Result

/-- The claim of a lifecycle transaction. -/
def claim? : ProcessRequest → Option ClaimedReceiptJob
  | completeQualityRejection claimedJob _ | completeExtraction claimedJob _ _
  | scheduleRetry claimedJob _ _ _ | failExtraction claimedJob _ _ => some claimedJob
  | load _ | inspect _ | extract _ | now => none

end ProcessRequest

abbrev ProcessProgram (α : Type) : Type := Program ProcessRequest ProcessRequest.Answer Failure α

namespace ReceiptExtractionProcessor

def MAX_ATTEMPTS : ℕ := 3

/-- Ten seconds. -/
def RETRY_DELAY : ℤ := 10000000000

def ask (request : ProcessRequest) : ProcessProgram request.Result :=
  Program.request request >>= Program.ofExcept

def retryOrFail (claimedJob : ClaimedReceiptJob) (exception : Failure) : ProcessProgram Receipt :=
  let errorCode := JString.ofString exception.simpleName
  if claimedJob.attemptCount < MAX_ATTEMPTS then do
    let now : Instant ← ask .now
    ask (.scheduleRetry claimedJob errorCode exception.message (now + RETRY_DELAY))
  else ask (.failExtraction claimedJob errorCode exception.message)

/-- The second half of the `try`, after the inspection of the image. -/
def extractInspected (claimedJob : ClaimedReceiptJob) (image : List UInt8)
    (quality : ImageQualityResult) : ProcessProgram Receipt :=
  if quality.status ≠ .acceptable then ask (.completeQualityRejection claimedJob quality)
  else do
    let extraction ← ask (.extract ⟨image, claimedJob.contentType, claimedJob.fileName⟩)
    let extractedAt ← ask .now
    ask (.completeExtraction claimedJob extraction extractedAt)

/-- The body of the `try`. -/
def attempt (claimedJob : ClaimedReceiptJob) : ProcessProgram Receipt := do
  let image ← ask (.load claimedJob.imageStorageKey)
  let quality ← ask (.inspect image)
  extractInspected claimedJob image quality

/-- The `catch` blocks; a missing image is a storage exception that is not retryable. -/
def handle (claimedJob : ClaimedReceiptJob) (exception : Failure) : ProcessProgram Receipt :=
  match exception with
  | .extraction _ | .receiptImageStorage _ true => retryOrFail claimedJob exception
  | .receiptImageStorage _ false | .receiptImageNotFound =>
      ask (.failExtraction claimedJob (.ofString exception.simpleName) exception.message)
  | exception => Program.throw exception

def process (claimedJob : ClaimedReceiptJob) : ProcessProgram Receipt :=
  (attempt claimedJob).tryCatch (handle claimedJob)

/-! ## One claim, one outcome -/

/-- A run of `process` calls lifecycle transactions with its own claim only, and
a transaction that succeeds is the last thing it does: from there no `catch`
block starts another one.  The answers of the environment are arbitrary. -/
inductive OneOutcome (claimedJob : ClaimedReceiptJob) : ProcessProgram Receipt → Prop
  | done {result : Except Failure Receipt} : OneOutcome claimedJob (.done result)
  | call {request : ProcessRequest} {next : request.Answer → ProcessProgram Receipt} :
      (∀ claim, request.claim? = some claim → claim = claimedJob) →
      (request.claim?.isSome → ∀ receipt, ∃ result, next (.ok receipt) = .done result) →
      (∀ answer, OneOutcome claimedJob (next answer)) →
      OneOutcome claimedJob (.call request next)

variable {claimedJob : ClaimedReceiptJob}

/-- Waiting for an answer of another collaborator. -/
theorem OneOutcome.call_of_none {request : ProcessRequest}
    {next : request.Answer → ProcessProgram Receipt} (hnone : request.claim? = none)
    (h : ∀ answer, OneOutcome claimedJob (next answer)) :
    OneOutcome claimedJob (.call request next) := by
  refine .call ?_ ?_ h
  · intro claim hclaim
    rw [hnone] at hclaim
    exact absurd hclaim (by simp)
  · intro hsome
    rw [hnone] at hsome
    exact absurd hsome (by simp)

/-- A lifecycle transaction at the end of the run. -/
theorem OneOutcome.call_last {request : ProcessRequest}
    {next : request.Answer → ProcessProgram Receipt} (hclaim : request.claim? = some claimedJob)
    (hlast : ∀ receipt, ∃ result, next (.ok receipt) = .done result)
    (herror : ∀ e, OneOutcome claimedJob (next (.error e))) :
    OneOutcome claimedJob (.call request next) := by
  refine .call ?_ (fun _ => hlast) ?_
  · intro claim h
    rw [hclaim] at h
    exact (Option.some.inj h).symm
  · intro answer
    cases answer with
    | error e => exact herror e
    | ok receipt =>
        obtain ⟨result, hresult⟩ := hlast receipt
        rw [hresult]
        exact .done

theorem retryOrFail_oneOutcome (exception : Failure) :
    OneOutcome claimedJob (retryOrFail claimedJob exception) := by
  unfold retryOrFail
  by_cases hattempts : claimedJob.attemptCount < MAX_ATTEMPTS
  · simp only [hattempts]
    refine .call_of_none rfl fun (answer : ProcessRequest.Answer .now) => ?_
    cases answer with
    | error e => exact .done
    | ok now => exact .call_last rfl (fun _ => ⟨_, rfl⟩) fun _ => .done
  · simp only [hattempts]
    exact .call_last rfl (fun _ => ⟨_, rfl⟩) fun _ => .done

/-- The `catch` blocks, on whatever exception. -/
theorem handle_oneOutcome (exception : Failure) :
    OneOutcome claimedJob (handle claimedJob exception) := by
  cases exception with
  | extraction message => exact retryOrFail_oneOutcome _
  | receiptImageStorage message retryable =>
      cases retryable with
      | true => exact retryOrFail_oneOutcome _
      | false => exact .call_last rfl (fun _ => ⟨_, rfl⟩) fun _ => .done
  | receiptImageNotFound => exact .call_last rfl (fun _ => ⟨_, rfl⟩) fun _ => .done
  | _ => exact .done

theorem extractInspected_oneOutcome (image : List UInt8) (quality : ImageQualityResult) :
    OneOutcome claimedJob
      ((extractInspected claimedJob image quality).tryCatch (handle claimedJob)) := by
  unfold extractInspected
  by_cases hquality : quality.status ≠ .acceptable
  · rw [if_pos hquality]
    exact .call_last rfl (fun _ => ⟨_, rfl⟩) fun e => handle_oneOutcome e
  · rw [if_neg hquality]
    refine .call_of_none rfl fun extracted => ?_
    cases extracted with
    | error e => exact handle_oneOutcome e
    | ok extraction =>
        refine .call_of_none rfl fun read => ?_
        cases read with
        | error e => exact handle_oneOutcome e
        | ok extractedAt => exact .call_last rfl (fun _ => ⟨_, rfl⟩) fun e => handle_oneOutcome e

theorem process_oneOutcome (claimedJob : ClaimedReceiptJob) :
    OneOutcome claimedJob (process claimedJob) := by
  refine .call_of_none rfl fun loaded => ?_
  cases loaded with
  | error e => exact handle_oneOutcome e
  | ok image =>
      refine .call_of_none rfl fun inspected => ?_
      cases inspected with
      | error e => exact handle_oneOutcome e
      | ok quality => exact extractInspected_oneOutcome image quality

end ReceiptExtractionProcessor

end ReceiptReview
