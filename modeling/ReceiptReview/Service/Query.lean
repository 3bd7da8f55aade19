import Mathlib.Data.List.Sort
import ReceiptReview.Model.Image
import ReceiptReview.Service.Command

/-!
# Reading receipts

`ReceiptQueryService`, `ReceiptImageService` and the receipt endpoints of
`ReceiptController` that name one receipt.  A query reads one snapshot.
-/

namespace ReceiptReview

open Java Store Outcome

/-! ## Responses -/

structure FileMetadata where
  originalFileName : Option JString
  contentType : Option JString
  size : ℤ
  sha256 : JString
  deriving DecidableEq, Repr

structure ReceiptResponse where
  id : Long
  version : ℕ
  companyId : JString
  ownerEmployeeId : Option Long
  status : Option ReceiptStatus
  jobStatus : ExtractionJobStatus
  originalData : Option ReceiptData
  currentData : Option ReceiptData
  ruleResults : List RuleResult
  file : FileMetadata
  createdAt : Instant
  updatedAt : Instant
  deriving DecidableEq, Repr

/-- `ReceiptResponse.from`. -/
def ReceiptResponse.ofReceipt (receipt : Receipt) (jobStatus : ExtractionJobStatus) :
    ReceiptResponse where
  id := receipt.id
  version := receipt.version
  companyId := receipt.companyId
  ownerEmployeeId := receipt.ownerEmployeeId
  status := receipt.status
  jobStatus := jobStatus
  originalData := receipt.originalData
  currentData := receipt.currentData
  ruleResults := receipt.ruleResults
  file := {
    originalFileName := receipt.originalFileName
    contentType := receipt.contentType
    size := receipt.fileSize
    sha256 := receipt.imageSha256 }
  createdAt := receipt.createdAt
  updatedAt := receipt.updatedAt

structure ReceiptImageResponse where
  bytes : List UInt8
  contentType : JString
  deriving DecidableEq, Repr

/-! ## Queries -/

namespace ReceiptQueryService

open CurrentEmployeeService

def validateReadPermission (receipt : Receipt) (employee : Employee) : Except Failure Unit :=
  match receipt.ownerEmployeeId with
  | none => if employee.role ≠ .admin then .error (.receiptNotFound receipt.id) else .ok ()
  | some owner =>
      if employee.role = .employee ∧ employee.id ≠ owner then .error (.receiptNotFound receipt.id)
      else .ok ()

def getReceipt (db : Database) (session : Session) (receiptId : Long) :
    Except Failure Receipt := do
  let employee ← getCurrentEmployee db.employees session
  let receipt ← orElseThrow (db.findReceipt receiptId) (.receiptNotFound receiptId)
  validateReadPermission receipt employee
  return receipt

def getReceiptDetail (db : Database) (session : Session) (receiptId : Long) :
    Except Failure ReceiptResponse := do
  let receipt ← getReceipt db session receiptId
  let job ← orElseThrow (db.findJobByReceiptId receiptId) (.receiptNotFound receiptId)
  return .ofReceipt receipt job.status

def getExtractionJob (db : Database) (session : Session) (receiptId : Long) :
    Except Failure ReceiptExtractionJob := do
  -- the permission to read the receipt, before its job
  let _ ← getReceipt db session receiptId
  orElseThrow (db.findJobByReceiptId receiptId) (.receiptNotFound receiptId)

/-- `ORDER BY occurred_at`. -/
def occurredBefore (a b : AuditEvent) : Prop := a.occurredAt ≤ b.occurredAt

instance : DecidableRel occurredBefore := fun a b => by unfold occurredBefore; infer_instance

def getAuditEvents (db : Database) (session : Session) (receiptId : Long) :
    Except Failure (List AuditEvent) := do
  let _ ← getReceipt db session receiptId
  return (db.auditEvents.filter (·.receiptId = receiptId)).insertionSort occurredBefore

theorem getReceipt_eq_ok {db : Database} {session : Session} {receiptId : Long}
    {receipt : Receipt} (h : getReceipt db session receiptId = .ok receipt) :
    db.findReceipt receiptId = some receipt := by
  simp only [getReceipt, bind_eq_ok, orElseThrow_eq_ok, pure_eq_ok] at h
  obtain ⟨_, -, receipt, hreceipt, _, -, rfl⟩ := h
  exact hreceipt

theorem getAuditEvents_eq_ok {db : Database} {session : Session} {receiptId : Long}
    {events : List AuditEvent} (h : getAuditEvents db session receiptId = .ok events) :
    (∃ receipt, getReceipt db session receiptId = .ok receipt) ∧
      events = (db.auditEvents.filter (·.receiptId = receiptId)).insertionSort occurredBefore := by
  simp only [getAuditEvents, bind_eq_ok, pure_eq_ok] at h
  obtain ⟨receipt, hreceipt, rfl⟩ := h
  exact ⟨⟨receipt, hreceipt⟩, rfl⟩

theorem getReceiptDetail_eq_ok {db : Database} {session : Session} {receiptId : Long}
    {response : ReceiptResponse} (h : getReceiptDetail db session receiptId = .ok response) :
    ∃ row job, db.receiptRow receiptId = some row ∧
      db.findJobByReceiptId receiptId = some job ∧
      response = .ofReceipt row.reread job.status := by
  simp only [getReceiptDetail, bind_eq_ok, orElseThrow_eq_ok, pure_eq_ok] at h
  obtain ⟨receipt, hreceipt, job, hjob, rfl⟩ := h
  obtain ⟨row, hrow, rfl⟩ := Database.findReceipt_eq_some.mp (getReceipt_eq_ok hreceipt)
  exact ⟨row, job, hrow, hjob, rfl⟩

end ReceiptQueryService

namespace ReceiptImageService

open ReceiptQueryService

/-- `load` reads an object of the image storage. -/
def getOriginalImage (load : JString → Except Failure (List UInt8)) (db : Database)
    (session : Session) (receiptId : Long) : Except Failure ReceiptImageResponse := do
  let job ← getExtractionJob db session receiptId
  let bytes ← load job.imageStorageKey
  match ReceiptImageFormat.detect bytes with
  | .ok format => return { bytes, contentType := format.contentType }
  | .error _ => throw (.receiptImageStorage "저장된 원본 이미지 형식을 확인할 수 없습니다." false)

end ReceiptImageService

/-! ## Endpoints of one receipt -/

namespace ReceiptController

open ReceiptQueryService ReceiptImageService

/-- A call that names one receipt; `version` is the version the client has read. -/
inductive ReceiptCall
  | get
  | auditEvents
  | image
  | correctFields (version : ℤ) (corrections : FieldCorrections)
  | decide (version : ℤ) (decision : ReviewDecision) (note : Option JString)
  deriving DecidableEq, Repr

inductive Response
  | receipt (response : ReceiptResponse)
  | events (events : List AuditEvent)
  | image (response : ReceiptImageResponse)
  deriving DecidableEq, Repr

/-- Run a transaction alone, then read the status of the job in a second one. -/
def respond (P : Platform) (db : Database) (session : Session) (receiptId : Long)
    (body : Database → Except Failure (Receipt × Database.Changes)) :
    Except Failure Response × Database :=
  match db.transact P db body with
  | (.error e, db) => (.error e, db)
  | (.ok receipt, db) =>
      ((getExtractionJob db session receiptId).map fun job =>
        .receipt (.ofReceipt receipt job.status), db)

/-- The outcome of a call and the database after it; `now` and `today` are what
the clock shows. -/
def answer (P : Platform) (load : JString → Except Failure (List UInt8)) (db : Database)
    (session : Session) (today : LocalDate) (now : Instant) (receiptId : Long) :
    ReceiptCall → Except Failure Response × Database
  | .get => ((getReceiptDetail db session receiptId).map .receipt, db)
  | .auditEvents => ((getAuditEvents db session receiptId).map .events, db)
  | .image => ((getOriginalImage load db session receiptId).map .image, db)
  | .correctFields version corrections =>
      respond P db session receiptId fun db =>
        ReceiptCommandService.correctFields db session receiptId version corrections today now
  | .decide version decision note =>
      respond P db session receiptId fun db =>
        ReceiptCommandService.decide db session receiptId version decision note now

end ReceiptController

end ReceiptReview
