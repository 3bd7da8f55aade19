import ReceiptReview.Service.Extraction
import ReceiptReview.Service.ImageStorage

/-!
# Reading an image

`S3ReceiptImageStorage.load`, as the client of the bucket answers or throws, and
`ImageQualityInspector`.  A missing object and a refused access are reported as permanent,
overload and loss of the connection as worth another attempt.
-/

namespace ReceiptReview

open Java

/-! ## The bucket -/

/-- An exception in the chain of causes of an `SdkException`, as far as it is told apart. -/
inductive SdkCause
  | apiCallTimeoutException
  | apiCallAttemptTimeoutException
  | retryableException
  | socketTimeoutException
  | socketException
  | unknownHostException
  | eofException
  | other
  deriving DecidableEq, Repr

/-- What `getObjectAsBytes` ends with. -/
inductive S3Outcome
  | object (bytes : List UInt8)
  | noSuchKeyException
  /-- A response of the service, with the code of its error details. -/
  | s3Exception (statusCode : ℕ) (errorCode : Option JString)
  | nonRetryableException
  /-- Any other `SdkException`, the first of its causes. -/
  | sdkException (causes : List SdkCause)
  /-- Any other exception. -/
  | exception
  deriving DecidableEq, Repr

namespace S3ReceiptImageStorage

def RETRYABLE_STATUS_CODES : List ℕ := [408, 429, 500, 502, 503, 504]

def RETRYABLE_ERROR_CODES : List JString :=
  ["SlowDown", "Throttling", "ThrottlingException", "RequestTimeout", "RequestTimeoutException",
    "InternalError", "ServiceUnavailable"].map .ofString

/-- The loop over the causes; only a failure of the communication is retried. -/
def isTransient : SdkCause → Bool
  | .other => false
  | _ => true

def isRetryable : S3Outcome → Bool
  | .s3Exception statusCode errorCode =>
      if statusCode = 401 ∨ statusCode = 403 then false
      else RETRYABLE_STATUS_CODES.contains statusCode ||
        errorCode.any RETRYABLE_ERROR_CODES.contains
  | .nonRetryableException => false
  | .sdkException causes => causes.any isTransient
  | .object _ | .noSuchKeyException | .exception => false

def readFailure (outcome : S3Outcome) : Failure :=
  .receiptImageStorage "공유 저장소에서 영수증 이미지를 읽지 못했습니다." (isRetryable outcome)

/-- `load`, after the client has answered. -/
def read (outcome : S3Outcome) : Except Failure (List UInt8) :=
  match outcome with
  | .object bytes => .ok bytes
  | .noSuchKeyException => .error .receiptImageNotFound
  | .s3Exception statusCode _ =>
      if statusCode = 404 then .error .receiptImageNotFound
      else if statusCode = 401 ∨ statusCode = 403 then
        .error (.receiptImageStorage "공유 저장소의 영수증 이미지를 읽을 권한이 없습니다." false)
      else .error (readFailure outcome)
  | .nonRetryableException | .sdkException _ => .error (readFailure outcome)
  | .exception => .error .other

/-- What `load` throws. -/
theorem read_throws {outcome : S3Outcome} {e : Failure} (h : read outcome = .error e) :
    e = .other ∨ e = .receiptImageNotFound ∨
      ∃ message retryable, e = .receiptImageStorage message retryable := by
  unfold read at h
  split at h
  · cases h
  · cases h
    exact .inr (.inl rfl)
  · split at h
    · cases h
      exact .inr (.inl rfl)
    · split at h <;> cases h <;> exact .inr (.inr ⟨_, _, rfl⟩)
  · cases h
    exact .inr (.inr ⟨_, _, rfl⟩)
  · cases h
    exact .inr (.inr ⟨_, _, rfl⟩)
  · cases h
    exact .inl rfl

/-- An image is read exactly where its object is returned. -/
theorem read_eq_ok {outcome : S3Outcome} {bytes : List UInt8} :
    read outcome = .ok bytes ↔ outcome = .object bytes := by
  unfold read
  split
  any_goals simp
  split
  · simp
  · split <;> simp

end S3ReceiptImageStorage

/-- The client tells the truth of an object: it returns what is stored, and says that an
object is missing only where none is stored. -/
def S3Outcome.Tells (stored : Option (List UInt8)) : S3Outcome → Prop
  | .object bytes => stored = some bytes
  | .noSuchKeyException | .s3Exception 404 _ => stored = none
  | _ => True

/-- The failures of an object that is there. -/
theorem S3ReceiptImageStorage.read_eq_error {outcome : S3Outcome} {bytes : List UInt8}
    {e : Failure} (htells : outcome.Tells (some bytes)) (h : read outcome = .error e) :
    e = .other ∨ ∃ message, e = .receiptImageStorage message (isRetryable outcome) := by
  cases outcome with
  | object => cases h
  | noSuchKeyException => cases htells
  | s3Exception statusCode errorCode =>
      by_cases hmissing : statusCode = 404
      · subst hmissing
        cases htells
      · by_cases hdenied : statusCode = 401 ∨ statusCode = 403
        · simp only [read, if_neg hmissing, if_pos hdenied] at h
          cases h
          exact .inr ⟨_, by rw [isRetryable, if_pos hdenied]⟩
        · simp only [read, if_neg hmissing, if_neg hdenied] at h
          cases h
          exact .inr ⟨_, rfl⟩
  | nonRetryableException | sdkException =>
      cases h
      exact .inr ⟨_, rfl⟩
  | exception =>
      cases h
      exact .inl rfl

/-! ## The inspection -/

/-- `receipt.quality`. -/
structure Quality where
  minWidth : ℤ
  minHeight : ℤ
  deriving DecidableEq, Repr

/-- What `ImageIO.read` ends with; it returns `null` for a format that it does not know. -/
inductive DecodeOutcome
  | image (width height : ℤ)
  | null
  | ioException
  /-- Any other exception. -/
  | exception
  deriving DecidableEq, Repr

namespace ImageQualityInspector

def unreadable (reason : String) : ImageQualityResult where
  status := .unreadable
  width := none
  height := none
  reason := some (.ofString reason)

/-- An image that has been decoded. -/
def inspectSize (properties : Quality) (width height : ℤ) : ImageQualityResult :=
  if width < properties.minWidth ∨ height < properties.minHeight then
    { status := .needsRecapture
      width := some width
      height := some height
      reason := some (.ofString ("최소 해상도 " ++ toString properties.minWidth ++ "x" ++
        toString properties.minHeight ++ "를 충족하지 않습니다.")) }
  else
    { status := .acceptable
      width := some width
      height := some height
      reason := some (.ofString "기본 품질 검사를 통과했습니다.") }

/-- An empty file is not decoded. -/
def inspect (properties : Quality) (bytes : List UInt8) (decoded : DecodeOutcome) :
    Except Failure ImageQualityResult :=
  if bytes.isEmpty then .ok (unreadable "빈 파일입니다.")
  else
    match decoded with
    | .image width height => .ok (inspectSize properties width height)
    | .null => .ok (unreadable "지원되는 이미지로 해석할 수 없습니다.")
    | .ioException => .ok (unreadable "이미지를 읽는 중 오류가 발생했습니다.")
    | .exception => .error .other

/-- Only the decoder can throw. -/
theorem inspect_eq_error {properties : Quality} {bytes : List UInt8} {decoded : DecodeOutcome}
    {e : Failure} (h : inspect properties bytes decoded = .error e) : e = .other := by
  unfold inspect at h
  split at h
  · cases h
  · split at h <;> cases h
    rfl

/-- An image that is acceptable was decoded and has the least size. -/
theorem inspect_acceptable {properties : Quality} {bytes : List UInt8} {decoded : DecodeOutcome}
    {quality : ImageQualityResult} (h : inspect properties bytes decoded = .ok quality)
    (hacceptable : quality.status = .acceptable) :
    ∃ width height, decoded = .image width height ∧ properties.minWidth ≤ width ∧
      properties.minHeight ≤ height := by
  unfold inspect at h
  split at h
  · cases h
    exact absurd hacceptable (by simp [unreadable])
  · split at h
    · rename_i width height
      cases h
      refine ⟨width, height, rfl, ?_⟩
      unfold inspectSize at hacceptable
      split at hacceptable
      · exact absurd hacceptable (by simp)
      · omega
    all_goals
      cases h
      try exact absurd hacceptable (by simp [unreadable])

end ImageQualityInspector

end ReceiptReview
