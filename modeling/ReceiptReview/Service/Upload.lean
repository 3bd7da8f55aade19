import ReceiptReview.Model.Image
import ReceiptReview.Program.Basic
import ReceiptReview.Service.Persistence

/-!
# Upload

`ReceiptUploadService` and the Redis lock around the intake of one image.  An
upload is not one transaction: its queries, its lock and its two transactions
are requests, and other requests of the system may be served between them.
-/

namespace ReceiptReview

open Java Store Outcome

/-- What `RLock.tryLock` reports. -/
inductive LockOutcome
  | acquired
  | timedOut
  | interrupted
  deriving DecidableEq, Repr

/-- The requests of an upload to the database, the lock, the clock and the storage. -/
inductive UploadRequest
  | findByCompanyIdAndIdempotencyKey (companyId idempotencyKey : JString)
  | findByCompanyIdAndImageSha256 (companyId imageSha256 : JString)
  | findReceiptById (id : Long)
  | findJobByReceiptId (receiptId : Long)
  | tryLock (lockKey : JString)
  | unlock (lockKey : JString)
  | now
  | store (companyId imageSha256 : JString) (bytes : List UInt8)
  | createQueued (receipt : Receipt) (imageStorageKey : JString)
      (idempotencyKey : Option JString) (auditEvents : List AuditEvent)
  | markDuplicate (receiptId : Long)
  deriving DecidableEq, Repr

namespace UploadRequest

/-- What a request returns when it does not throw. -/
@[reducible] def Result : UploadRequest → Type
  | findByCompanyIdAndIdempotencyKey _ _ => Option IdempotencyRecord
  | findByCompanyIdAndImageSha256 _ _ => Option Receipt
  | findReceiptById _ => Option Receipt
  | findJobByReceiptId _ => Option ReceiptExtractionJob
  | tryLock _ => LockOutcome
  | unlock _ => Unit
  | now => Instant
  | store _ _ _ => JString
  | createQueued _ _ _ _ => Receipt × ReceiptExtractionJob
  | markDuplicate _ => Receipt

abbrev Answer (request : UploadRequest) : Type := Except Failure request.Result

end UploadRequest

/-- A part of an upload. -/
abbrev UploadProgram (α : Type) : Type := Program UploadRequest UploadRequest.Answer Failure α

/-- Make a request; its exception is the caller's. -/
def ask (request : UploadRequest) : UploadProgram request.Result :=
  Program.request request >>= Program.ofExcept

structure UploadResult where
  receipt : Receipt
  job : ReceiptExtractionJob
  created : Bool
  idempotentReplay : Bool
  deriving DecidableEq, Repr

namespace RedisDuplicateReceiptLock

def lockKey (companyId imageSha256 : JString) : JString :=
  .ofString "receipt:duplicate:" ++ companyId ++ .ofString ":" ++ imageSha256

def execute {α : Type} (companyId imageSha256 : JString) (action : UploadProgram α) :
    UploadProgram α := do
  let lockKey := lockKey companyId imageSha256
  match ← ask (.tryLock lockKey) with
  | .interrupted =>
      Program.throw (.receiptConflict "중복 영수증 처리 대기 중 요청이 중단되었습니다.")
  | .timedOut => Program.throw (.receiptConflict "동일한 영수증 이미지가 이미 처리 중입니다.")
  | .acquired => action.tryFinally (ask (.unlock lockKey))

end RedisDuplicateReceiptLock

/-- The arguments of one upload call. -/
structure UploadCall where
  companyId : JString
  idempotencyKey : Option JString
  fileName : Option JString
  contentType : Option JString
  bytes : List UInt8
  ownerId : Option Long
  deriving DecidableEq, Repr

namespace ReceiptUploadService

def normalize (value : Option JString) : Option JString :=
  match value with
  | none => none
  | some value => if value.isBlank then none else some value.trim

/-- The part of a path after its last separator. -/
def safeFileName (fileName : JString) : JString :=
  (fileName.map fun unit => if unit = 0x5C then 0x2F else unit).rtakeWhile (· ≠ 0x2F)

def createUploadDetails (fileName contentType : Option JString) (fileSize : ℤ)
    (imageSha256 : JString) : List (String × Detail) :=
  (fileName.map fun fileName => ("fileName", Detail.text (safeFileName fileName))).toList ++
    (contentType.map fun contentType => ("contentType", Detail.text contentType)).toList ++
    [("fileSize", .number fileSize), ("imageSha256", .text imageSha256)]

/-- The receipt that an accepted image starts with. -/
def acceptedReceipt (companyId imageSha256 : JString) (fileName contentType : Option JString)
    (fileSize : ℤ) (ownerId : Option Long) (now : Instant) : Receipt :=
  { Receipt.new companyId imageSha256 (fileName.map safeFileName) contentType fileSize none none
      [] now with ownerEmployeeId := ownerId }

def uploadedEvent (imageSha256 : JString) (fileName contentType : Option JString)
    (fileSize : ℤ) (ownerId : Option Long) (now : Instant) : AuditEvent where
  receiptId := unsaved
  occurredAt := now
  actor := ownerId.elim "system" employeeActor
  action := .uploaded
  previousStatus := none
  newStatus := none
  details := createUploadDetails fileName contentType fileSize imageSha256

def ensureOwner (receipt : Receipt) (ownerId : Option Long) : UploadProgram Unit :=
  if receipt.ownerEmployeeId ≠ ownerId then
    Program.throw (.receiptConflict "이미 사용 중인 이미지 또는 요청 키입니다.")
  else pure ()

/-- `optional.orElseThrow(() -> e)`. -/
def required {α : Type} (value : Option α) (e : Failure) : UploadProgram α :=
  Program.ofExcept (orElseThrow value e)

def existingResult (receipt : Receipt) (idempotentReplay : Bool) : UploadProgram UploadResult := do
  let found ← ask (.findJobByReceiptId receipt.id)
  let job ← required found (.illegalState "영수증 추출 작업을 찾을 수 없습니다.")
  return { receipt, job, created := false, idempotentReplay }

def findReceipt (receiptId : Long) : UploadProgram Receipt := do
  let found ← ask (.findReceiptById receiptId)
  required found (.receiptNotFound receiptId)

def findIdempotentReplay (companyId : JString) (idempotencyKey : Option JString)
    (ownerId : Option Long) : UploadProgram (Option UploadResult) := do
  match idempotencyKey with
  | none => return none
  | some idempotencyKey =>
      match ← ask (.findByCompanyIdAndIdempotencyKey companyId idempotencyKey) with
      | none => return none
      | some record => do
          let receipt ← findReceipt record.receiptId
          ensureOwner receipt ownerId
          let result ← existingResult receipt true
          return some result

def findProcessedDuplicate (companyId imageSha256 : JString) (ownerId : Option Long) :
    UploadProgram (Option UploadResult) := do
  match ← ask (.findByCompanyIdAndImageSha256 companyId imageSha256) with
  | none => return none
  | some receipt => do
      ensureOwner receipt ownerId
      match ← ask (.findJobByReceiptId receipt.id) with
      | none => return none
      | some job =>
          if job.duplicateDetected then
            return some { receipt, job, created := false, idempotentReplay := false }
          else return none

/-- Mark the stored receipt of the same image and return it. -/
def acceptDuplicate (existing : Receipt) (ownerId : Option Long) : UploadProgram UploadResult := do
  ensureOwner existing ownerId
  let duplicate ← ask (.markDuplicate existing.id)
  existingResult duplicate false

def resolveConstraintConflict (companyId imageSha256 : JString)
    (idempotencyKey : Option JString) (ownerId : Option Long) : UploadProgram UploadResult := do
  match ← findIdempotentReplay companyId idempotencyKey ownerId with
  | some replay => return replay
  | none => do
      let found ← ask (.findByCompanyIdAndImageSha256 companyId imageSha256)
      let existing ← required found .dataIntegrityViolation
      acceptDuplicate existing ownerId

/-- Store the receipt; a unique constraint that another request has won decides
in favour of that request. -/
def createReceipt (companyId imageSha256 storageKey : JString) (idempotencyKey : Option JString)
    (receipt : Receipt) (uploaded : AuditEvent) (ownerId : Option Long) :
    UploadProgram UploadResult :=
  Program.tryCatch
    (do
      let (receipt, job) ← ask (.createQueued receipt storageKey idempotencyKey [uploaded])
      return { receipt, job, created := true, idempotentReplay := false })
    fun exception =>
      match exception with
      | .dataIntegrityViolation =>
          resolveConstraintConflict companyId imageSha256 idempotencyKey ownerId
      | exception => Program.throw exception

def acceptWhileLocked (companyId : JString) (idempotencyKey fileName contentType : Option JString)
    (bytes : List UInt8) (imageSha256 : JString) (ownerId : Option Long) :
    UploadProgram UploadResult := do
  match ← findIdempotentReplay companyId idempotencyKey ownerId with
  | some replay => return replay
  | none => do
      match ← ask (.findByCompanyIdAndImageSha256 companyId imageSha256) with
      | some sameImage => acceptDuplicate sameImage ownerId
      | none => do
          let now ← ask .now
          let storageKey ← ask (.store companyId imageSha256 bytes)
          let receipt := acceptedReceipt companyId imageSha256 fileName contentType bytes.length
            ownerId now
          let uploaded := uploadedEvent imageSha256 fileName contentType bytes.length ownerId now
          createReceipt companyId imageSha256 storageKey idempotencyKey receipt uploaded ownerId

/-- The content type that the client sent is not used. -/
def upload (P : Platform) (call : UploadCall) : UploadProgram UploadResult := do
  if call.bytes.isEmpty then
    Program.throw (.illegalArgument "업로드 파일은 비어 있을 수 없습니다.")
  else do
    let format ← Program.ofExcept (ReceiptImageFormat.detect call.bytes)
    let normalizedKey := normalize call.idempotencyKey
    match ← findIdempotentReplay call.companyId normalizedKey call.ownerId with
    | some replay => return replay
    | none => do
        let imageSha256 := P.sha256 call.bytes
        match ← findProcessedDuplicate call.companyId imageSha256 call.ownerId with
        | some processedDuplicate => return processedDuplicate
        | none =>
            Program.tryCatch
              (RedisDuplicateReceiptLock.execute call.companyId imageSha256
                (acceptWhileLocked call.companyId normalizedKey call.fileName
                  (some format.contentType) call.bytes imageSha256 call.ownerId))
              fun exception =>
                match exception with
                | .receiptConflict message => do
                    let found ← findProcessedDuplicate call.companyId imageSha256 call.ownerId
                    required found (.receiptConflict message)
                | exception => Program.throw exception

end ReceiptUploadService

end ReceiptReview
