import ReceiptReview.Model.Database
import ReceiptReview.Model.Validation
import ReceiptReview.Program.Outcome

/-!
# Intake of receipts

`ReceiptPersistenceService`: the transaction that stores a new receipt with its
extraction job, and the one that marks a stored receipt as a duplicate.  The
keys that the database generates are arguments.
-/

namespace ReceiptReview

open Java Store Outcome

/-- The event of the actor `"system"`. -/
def systemEvent (receiptId : Long) (occurredAt : Instant) (action : AuditAction)
    (previousStatus newStatus : Option ReceiptStatus) (details : List (String × Detail)) :
    AuditEvent where
  receiptId := receiptId
  occurredAt := occurredAt
  actor := "system"
  action := action
  previousStatus := previousStatus
  newStatus := newStatus
  details := details

namespace ReceiptPersistenceService

open ValidationEngine ReceiptStatusRouter

/-- `createdAt` and `recordedAt` are the two readings of the clock. -/
def createQueued (receipt : Receipt) (imageStorageKey : JString)
    (idempotencyKey : Option JString) (auditEvents : List AuditEvent)
    (receiptId jobId : Long) (createdAt recordedAt : Instant) :
    Except Failure ((Receipt × ReceiptExtractionJob) × Database.Changes) :=
  let receipt := { receipt with id := receiptId }
  let job := { ReceiptExtractionJob.new receipt.id imageStorageKey createdAt with id := jobId }
  let record :=
    match idempotencyKey with
    | none => none
    | some key =>
        if key.isBlank then none
        else some {
          companyId := receipt.companyId
          idempotencyKey := key
          receiptId := receipt.id
          createdAt := recordedAt }
  .ok ((receipt, job), {
    created := some { receipt, job, record }
    events := auditEvents.map (·.attachTo receipt.id) })

def isTerminal (status : ReceiptStatus) : Bool :=
  status = .approved || status = .rejected

/-- The event of a duplicate of a receipt that has no business status yet. -/
def deferredEvent (receiptId : Long) (now : Instant) : AuditEvent :=
  systemEvent receiptId now .duplicateDetected none none
    [("ruleCode", .text (.ofString "DUPLICATE_SUBMISSION")), ("deferred", .flag true)]

def duplicateEvent (receiptId : Long) (now : Instant) (previous next : ReceiptStatus) :
    AuditEvent :=
  systemEvent receiptId now .duplicateDetected (some previous) (some next)
    [("ruleCode", .text (.ofString "DUPLICATE_SUBMISSION"))]

def markDuplicate (db : Database) (receiptId : Long) (now : Instant) (today : LocalDate) :
    Except Failure (Receipt × Database.Changes) := do
  let receipt ← orElseThrow (db.findReceipt receiptId) (.receiptNotFound receiptId)
  let job ← orElseThrow (db.findJobByReceiptId receiptId)
    (.illegalState "영수증 추출 작업을 찾을 수 없습니다.")
  -- the flag of the job alone decides whether the duplicate has been handled
  if job.duplicateDetected then
    return (receipt, {})
  let job := job.markDuplicate now
  match receipt.status with
  | none => return (receipt, { jobs := [job], events := [deferredEvent receipt.id now] })
  | some previous =>
      if duplicateFailed receipt.ruleResults then
        return (receipt, { jobs := [job] })
      let results := validate today receipt.currentData true
      let next := if isTerminal previous then previous else route receipt.currentData results
      let receipt := receipt.updateData receipt.currentData results next now
      return (receipt.flushed, {
        receipts := [receipt]
        jobs := [job]
        events := [duplicateEvent receipt.id now previous next] })

/-- The four ways in which a duplicate is handled. -/
theorem markDuplicate_eq_ok {db : Database} {receiptId : Long} {now : Instant}
    {today : LocalDate} {result : Receipt} {changes : Database.Changes}
    (h : markDuplicate db receiptId now today = .ok (result, changes)) :
    ∃ row job, db.receiptRow receiptId = some row ∧
      db.findJobByReceiptId receiptId = some job ∧ result.id = row.id ∧
      result.imageSha256 = row.imageSha256 ∧
      (job.duplicateDetected = true ∧ changes = {} ∨
        job.duplicateDetected = false ∧ row.status = none ∧
          changes = { jobs := [job.markDuplicate now], events := [deferredEvent row.id now] } ∨
        job.duplicateDetected = false ∧ duplicateFailed row.ruleResults = true ∧
          changes = { jobs := [job.markDuplicate now] } ∨
        job.duplicateDetected = false ∧ ∃ previous next, row.status = some previous ∧
          next = (if isTerminal previous then previous
            else route row.reread.currentData (validate today row.reread.currentData true)) ∧
          changes = {
            receipts := [row.reread.updateData row.reread.currentData
              (validate today row.reread.currentData true) next now]
            jobs := [job.markDuplicate now]
            events := [duplicateEvent row.id now previous next] }) := by
  simp only [markDuplicate, bind_eq_ok, orElseThrow_eq_ok, Database.findReceipt_eq_some] at h
  obtain ⟨_, ⟨row, hrow, rfl⟩, job, hjob, h⟩ := h
  refine ⟨row, job, hrow, hjob, ?_⟩
  split at h
  · rename_i hflag
    obtain ⟨rfl, rfl⟩ := Prod.mk.inj (pure_eq_ok.mp h)
    exact ⟨rfl, rfl, .inl ⟨hflag, rfl⟩⟩
  · rename_i hflag
    have hflag : job.duplicateDetected = false := by simpa using hflag
    split at h
    · rename_i hstatus
      obtain ⟨rfl, rfl⟩ := Prod.mk.inj (pure_eq_ok.mp h)
      exact ⟨rfl, rfl, .inr (.inl ⟨hflag, hstatus, rfl⟩)⟩
    · rename_i previous hstatus
      split at h
      · rename_i hmarked
        obtain ⟨rfl, rfl⟩ := Prod.mk.inj (pure_eq_ok.mp h)
        exact ⟨rfl, rfl, .inr (.inr (.inl ⟨hflag, hmarked, rfl⟩))⟩
      · obtain ⟨rfl, rfl⟩ := Prod.mk.inj (pure_eq_ok.mp h)
        exact ⟨rfl, rfl, .inr (.inr (.inr ⟨hflag, previous, _, hstatus, rfl, rfl⟩))⟩

/-- A duplicate is refused only without its receipt or its job. -/
theorem markDuplicate_eq_error {db : Database} {receiptId : Long} {now : Instant}
    {today : LocalDate} {e : Failure} (h : markDuplicate db receiptId now today = .error e) :
    db.receiptRow receiptId = none ∧ e = .receiptNotFound receiptId ∨
      db.receiptRow receiptId ≠ none ∧ db.findJobByReceiptId receiptId = none := by
  simp only [markDuplicate, bind_eq_error, orElseThrow_eq_ok, orElseThrow_eq_error,
    Database.findReceipt_eq_none, Database.findReceipt_eq_some] at h
  rcases h with ⟨hrow, rfl⟩ | ⟨_, ⟨row, hrow, rfl⟩, ⟨hjob, rfl⟩ | ⟨job, -, h⟩⟩
  · exact .inl ⟨hrow, rfl⟩
  · exact .inr ⟨by simp [hrow], hjob⟩
  · -- the rest of the transaction throws nothing
    exfalso
    split at h
    · exact pure_ne_error h
    · split at h
      · exact pure_ne_error h
      · split at h <;> exact pure_ne_error h

end ReceiptPersistenceService

end ReceiptReview
