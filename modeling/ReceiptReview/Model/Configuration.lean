import ReceiptReview.Model.Failure
import ReceiptReview.Program.Outcome

/-!
# Configuration of the worker

The properties that the worker is started with, and the validation that
`ReceiptWorkerConfiguration` runs before it creates the worker's identity.
Durations are in nanoseconds.
-/

namespace ReceiptReview

open Java Outcome

abbrev Duration := ℤ

structure ReceiptWorkerProperties where
  pollDelayMillis : ℤ
  leaseDuration : Option Duration
  batchSize : ℤ
  concurrency : ℤ
  workerId : Option JString
  deriving DecidableEq, Repr

/-- `receipt.extractor`. -/
structure ExtractorProperties where
  provider : JString
  fakeDelay : Duration
  deriving DecidableEq, Repr

/-- `receipt.openai`. -/
structure OpenAiProperties where
  connectTimeout : Duration
  responseTimeout : Duration
  deriving DecidableEq, Repr

structure ReceiptProperties where
  extractor : ExtractorProperties
  openai : OpenAiProperties
  deriving DecidableEq, Repr

/-- `receipt.storage.s3`. -/
structure S3Properties where
  requestTimeout : Duration
  deriving DecidableEq, Repr

/-- The property groups that a worker depends on. -/
structure Configuration where
  worker : ReceiptWorkerProperties
  receipt : ReceiptProperties
  s3 : S3Properties
  deriving DecidableEq, Repr

def ReceiptWorkerProperties.validate (properties : ReceiptWorkerProperties) :
    Except Failure Unit := do
  throwIf (properties.pollDelayMillis ≤ 0)
    (.illegalArgument "Worker polling 간격은 0보다 커야 합니다.")
  throwIf (properties.leaseDuration.all (· ≤ 0))
    (.illegalArgument "Worker Lease 기간은 0보다 커야 합니다.")
  throwIf (properties.batchSize ≤ 0 ∨ properties.concurrency ≤ 0)
    (.illegalArgument "Worker batchSize와 concurrency는 1 이상이어야 합니다.")

namespace ReceiptWorkerConfiguration

/-- `leaseDuration` is the validated duration of the properties. -/
def validateTimeoutAndLease (leaseDuration : Duration) (receiptProperties : ReceiptProperties) :
    Except Failure Unit := do
  throwIf (receiptProperties.extractor.provider.equalsIgnoreCase (.ofString "fake") ∧
      leaseDuration ≤ receiptProperties.extractor.fakeDelay)
    (.illegalArgument "Worker Lease 기간은 Fake 추출 지연보다 길어야 합니다.")
  if receiptProperties.extractor.provider.equalsIgnoreCase (.ofString "openai") then
    throwIf (leaseDuration ≤ receiptProperties.openai.responseTimeout)
      (.illegalArgument "Worker Lease 기간은 OpenAI 응답 제한 시간보다 길어야 합니다.")

/-- The identity of the worker; `drawn` is the text of the random UUID. -/
def receiptWorkerIdentity (properties : ReceiptWorkerProperties)
    (receiptProperties : ReceiptProperties) (drawn : JString) : Except Failure JString := do
  properties.validate
  match properties.leaseDuration with
  -- `validate` has refused a missing duration
  | none => throw .other
  | some leaseDuration =>
      validateTimeoutAndLease leaseDuration receiptProperties
      let value :=
        match properties.workerId with
        | none => .ofString "receipt-worker-" ++ drawn
        | some configured =>
            if configured.isBlank then .ofString "receipt-worker-" ++ drawn else configured.trim
      throwIf (value.length > 100) (.illegalArgument "Worker ID는 100자를 초과할 수 없습니다.")
      return value

end ReceiptWorkerConfiguration

end ReceiptReview
