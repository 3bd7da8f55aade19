import ReceiptReview.Model.Employee
import ReceiptReview.Model.Job

/-!
# The database

The tables of the receipt database, the queries of the repositories, and the
commit of a transaction.

A transaction computes its `Changes` from the snapshot it reads.  `commit`
applies them to the database as it is by then: the changed rows of `receipts`
and `receipt_extraction_jobs` must still have the version that was read, new
rows must satisfy the unique constraints and foreign keys of the schema, and
otherwise nothing is stored.

Columns of text are compared by the collation of the schema.  It is a parameter
(`Platform.collate` gives the weights that MySQL compares), as is SHA-256.
-/

namespace ReceiptReview

open Java Store

/-- The functions of the platform that the program relies on. -/
structure Platform where
  /-- The lower-case hexadecimal SHA-256 digest. -/
  sha256 : List UInt8 → JString
  /-- The weights by which `utf8mb4_0900_ai_ci` compares a text. -/
  collate : JString → JString
  /-- Hexadecimal digits of one case have distinct weights. -/
  collate_sha256 : ∀ a b, collate (sha256 a) = collate (sha256 b) → sha256 a = sha256 b

/-- The stored text equals the queried one. -/
def Platform.textEq (P : Platform) (stored queried : JString) : Bool :=
  P.collate stored == P.collate queried

inductive AuditAction
  | uploaded
  | extractionJobClaimed
  | extractionJobRecovered
  | extractionRetryScheduled
  | qualityRejected
  | extractionCompleted
  | extractionFailed
  | validationCompleted
  | duplicateDetected
  | fieldsCorrected
  | reviewApproved
  | reviewRejected
  deriving DecidableEq, Repr

/-- A value in the details of an audit event. -/
inductive Detail
  | text (value : JString)
  | number (value : ℤ)
  | flag (value : Bool)
  | instant (value : Instant)
  | data (value : ReceiptData)
  | rules (value : List RuleResult)
  deriving DecidableEq, Repr

/-- A row of `audit_events`; the table keeps the order of the commits. -/
structure AuditEvent where
  receiptId : Long
  occurredAt : Instant
  actor : String
  action : AuditAction
  previousStatus : Option ReceiptStatus
  newStatus : Option ReceiptStatus
  details : List (String × Detail)
  deriving DecidableEq, Repr

def AuditEvent.attachTo (event : AuditEvent) (receiptId : Long) : AuditEvent :=
  { event with receiptId }

/-- The actor of the events that an employee causes. -/
def employeeActor (id : Long) : String := "employee:" ++ toString id

/-- A row of `idempotency_records`: the receipt that the first request with a key created. -/
structure IdempotencyRecord where
  companyId : JString
  idempotencyKey : JString
  receiptId : Long
  createdAt : Instant
  deriving DecidableEq, Repr

structure Database where
  receipts : Table Receipt
  jobs : Table ReceiptExtractionJob
  idempotencyRecords : List IdempotencyRecord
  auditEvents : List AuditEvent
  employees : Table Employee

namespace Database

/-- The store before the first upload. -/
def initial (employees : Table Employee) : Database where
  receipts := .empty
  jobs := .empty
  idempotencyRecords := []
  auditEvents := []
  employees := employees

/-! ## Repository queries -/

/-- The row as it is stored. -/
def receiptRow (db : Database) (id : Long) : Option Receipt :=
  db.receipts.find? id

def findReceipt (db : Database) (id : Long) : Option Receipt :=
  (db.receiptRow id).map Receipt.reread

def findJob (db : Database) (id : Long) : Option ReceiptExtractionJob :=
  db.jobs.find? id

def findJobByReceiptId (db : Database) (receiptId : Long) : Option ReceiptExtractionJob :=
  db.jobs.rows.find? fun job => job.receiptId == receiptId

def findByCompanyIdAndImageSha256 (P : Platform) (db : Database)
    (companyId imageSha256 : JString) : Option Receipt :=
  (db.receipts.rows.find? fun row =>
    P.textEq row.companyId companyId && P.textEq row.imageSha256 imageSha256).map Receipt.reread

def findByCompanyIdAndIdempotencyKey (P : Platform) (db : Database)
    (companyId idempotencyKey : JString) : Option IdempotencyRecord :=
  db.idempotencyRecords.find? fun record =>
    P.textEq record.companyId companyId && P.textEq record.idempotencyKey idempotencyKey

/-! ## Commit -/

/-- The rows that the intake of a receipt inserts. -/
structure Creation where
  receipt : Receipt
  job : ReceiptExtractionJob
  record : Option IdempotencyRecord
  deriving DecidableEq, Repr

/-- What a transaction writes: changed entities, new rows and audit events. -/
structure Changes where
  receipts : List Receipt := []
  jobs : List ReceiptExtractionJob := []
  created : Option Creation := none
  events : List AuditEvent := []
  deriving DecidableEq, Repr

/-- The unique constraints and the foreign key that an insertion must satisfy,
primary keys apart. -/
def admits (P : Platform) (db : Database) (new : Creation) : Bool :=
  (db.findByCompanyIdAndImageSha256 P new.receipt.companyId new.receipt.imageSha256).isNone &&
    (db.findJobByReceiptId new.job.receiptId).isNone &&
    (match new.record with
    | none => true
    | some record =>
        (db.findByCompanyIdAndIdempotencyKey P record.companyId record.idempotencyKey).isNone) &&
    (match new.receipt.ownerEmployeeId with
    | none => true
    | some owner => (db.employees.find? owner).isSome)

/-- Insert a receipt with its job and its idempotency record. -/
def insertCreation (P : Platform) (db : Database) (new : Creation) : Option Database :=
  if db.admits P new then
    match db.receipts.insert new.receipt, db.jobs.insert new.job with
    | some receipts, some jobs =>
        some { db with
          receipts
          jobs
          idempotencyRecords := db.idempotencyRecords ++ new.record.toList }
    | _, _ => none
  else none

/-- Write changed entities back. -/
def flush (db : Database) (changes : Changes) : Option Database :=
  match db.receipts.flush changes.receipts, db.jobs.flush changes.jobs with
  | some receipts, some jobs => some { db with receipts, jobs }
  | _, _ => none

/-- Add audit events to the log. -/
def record (db : Database) (events : List AuditEvent) : Database :=
  { db with auditEvents := db.auditEvents ++ events }

/-- Commit a transaction: all of its changes, or none. -/
def commit (P : Platform) (db : Database) (changes : Changes) : Except Failure Database :=
  match db.flush changes with
  | none => .error .optimisticLockingFailure
  | some flushed =>
      match changes.created with
      | none => .ok (flushed.record changes.events)
      | some new =>
          match flushed.insertCreation P new with
          | none => .error .dataIntegrityViolation
          | some inserted => .ok (inserted.record changes.events)

/-- Run a transaction that reads the snapshot `snap` while the database has
become `db`: its outcome, and the database afterwards. -/
def transact {α : Type} (P : Platform) (db snap : Database)
    (body : Database → Except Failure (α × Changes)) : Except Failure α × Database :=
  match body snap with
  | .error e => (.error e, db)
  | .ok (result, changes) =>
      match db.commit P changes with
      | .error e => (.error e, db)
      | .ok db' => (.ok result, db')

/-! ## What a query has read -/

theorem findReceipt_eq_some {db : Database} {id : Long} {receipt : Receipt} :
    db.findReceipt id = some receipt ↔ ∃ row, db.receiptRow id = some row ∧ row.reread = receipt :=
  Option.map_eq_some_iff

@[simp] theorem findReceipt_eq_none {db : Database} {id : Long} :
    db.findReceipt id = none ↔ db.receiptRow id = none := Option.map_eq_none_iff

theorem findReceipt_of_receiptRow {db : Database} {id : Long} {row : Receipt}
    (h : db.receiptRow id = some row) : db.findReceipt id = some row.reread := by
  rw [findReceipt, h, Option.map_some]

/-! ## What a commit has written -/

variable {P : Platform} {db db' : Database} {changes : Changes}

theorem flush_eq_some (h : db.flush changes = some db') :
    ∃ receipts jobs, db.receipts.flush changes.receipts = some receipts ∧
      db.jobs.flush changes.jobs = some jobs ∧ db' = { db with receipts, jobs } := by
  unfold Database.flush at h
  split at h
  · rename_i receipts jobs hreceipts hjobs
    exact ⟨receipts, jobs, hreceipts, hjobs, (Option.some.inj h).symm⟩
  · exact absurd h (by simp)

theorem insertCreation_eq_some {new : Creation} (h : db.insertCreation P new = some db') :
    db.admits P new ∧ ∃ receipts jobs, db.receipts.insert new.receipt = some receipts ∧
      db.jobs.insert new.job = some jobs ∧
      db' = { db with
        receipts
        jobs
        idempotencyRecords := db.idempotencyRecords ++ new.record.toList } := by
  unfold insertCreation at h
  split at h
  · rename_i hadmits
    split at h
    · rename_i receipts jobs hreceipts hjobs
      exact ⟨hadmits, receipts, jobs, hreceipts, hjobs, (Option.some.inj h).symm⟩
    · exact absurd h (by simp)
  · exact absurd h (by simp)

/-- The two kinds of commits: with and without an intake. -/
theorem commit_cases (h : db.commit P changes = .ok db') :
    ∃ flushed, db.flush changes = some flushed ∧
      (changes.created = none ∧ db' = flushed.record changes.events ∨
        ∃ new inserted, changes.created = some new ∧ flushed.insertCreation P new = some inserted ∧
          db' = inserted.record changes.events) := by
  unfold commit at h
  split at h
  · exact absurd h (by simp)
  · rename_i flushed hflush
    refine ⟨flushed, hflush, ?_⟩
    split at h
    · rename_i hcreated
      exact .inl ⟨hcreated, (Except.ok.inj h).symm⟩
    · rename_i new hcreated
      split at h
      · exact absurd h (by simp)
      · rename_i inserted hinserted
        exact .inr ⟨new, inserted, hcreated, hinserted, (Except.ok.inj h).symm⟩

/-- A commit without an intake writes the changed entities and the events. -/
theorem commit_written (hcreated : changes.created = none) (h : db.commit P changes = .ok db') :
    ∃ receipts jobs, db.receipts.flush changes.receipts = some receipts ∧
      db.jobs.flush changes.jobs = some jobs ∧
      db' = { db with receipts, jobs, auditEvents := db.auditEvents ++ changes.events } := by
  obtain ⟨flushed, hflush, hcase⟩ := commit_cases h
  obtain ⟨receipts, jobs, hreceipts, hjobs, rfl⟩ := flush_eq_some hflush
  rcases hcase with ⟨-, rfl⟩ | ⟨new, inserted, hnew, -, -⟩
  · exact ⟨receipts, jobs, hreceipts, hjobs, rfl⟩
  · rw [hcreated] at hnew
    exact absurd hnew (by simp)

/-- The commit of an intake inserts its rows, all of them admissible. -/
theorem commit_created {new : Creation} {events : List AuditEvent}
    (h : db.commit P { created := some new, events } = .ok db') :
    db.admits P new ∧ ∃ receipts jobs, db.receipts.insert new.receipt = some receipts ∧
      db.jobs.insert new.job = some jobs ∧
      db' = { db with
        receipts
        jobs
        idempotencyRecords := db.idempotencyRecords ++ new.record.toList
        auditEvents := db.auditEvents ++ events } := by
  obtain ⟨flushed, hflush, hcase⟩ := commit_cases h
  have hflushed : flushed = db := by
    obtain ⟨receipts, jobs, hreceipts, hjobs, rfl⟩ := flush_eq_some hflush
    rw [Table.flush_nil] at hreceipts hjobs
    cases hreceipts
    cases hjobs
    rfl
  rcases hcase with ⟨hnone, -⟩ | ⟨_, inserted, hnew, hinserted, rfl⟩
  · exact absurd hnone (by simp)
  · cases hnew
    rw [hflushed] at hinserted
    obtain ⟨hadmits, receipts, jobs, hreceipts, hjobs, rfl⟩ := insertCreation_eq_some hinserted
    exact ⟨hadmits, receipts, jobs, hreceipts, hjobs, rfl⟩

/-- The audit log only grows. -/
theorem auditEvents_commit (h : db.commit P changes = .ok db') :
    db'.auditEvents = db.auditEvents ++ changes.events := by
  obtain ⟨flushed, hflush, hcase⟩ := commit_cases h
  obtain ⟨receipts, jobs, -, -, rfl⟩ := flush_eq_some hflush
  rcases hcase with ⟨-, rfl⟩ | ⟨new, inserted, -, hinserted, rfl⟩
  · rfl
  · obtain ⟨-, receipts, jobs, -, -, rfl⟩ := insertCreation_eq_some hinserted
    rfl

/-- Employees are not written. -/
theorem employees_commit (h : db.commit P changes = .ok db') : db'.employees = db.employees := by
  obtain ⟨flushed, hflush, hcase⟩ := commit_cases h
  obtain ⟨receipts, jobs, -, -, rfl⟩ := flush_eq_some hflush
  rcases hcase with ⟨-, rfl⟩ | ⟨new, inserted, -, hinserted, rfl⟩
  · rfl
  · obtain ⟨-, receipts, jobs, -, -, rfl⟩ := insertCreation_eq_some hinserted
    rfl

/-- The tables before a commit precede those after it. -/
theorem precedes_commit (h : db.commit P changes = .ok db') :
    db.receipts.Precedes db'.receipts ∧ db.jobs.Precedes db'.jobs := by
  obtain ⟨flushed, hflush, hcase⟩ := commit_cases h
  obtain ⟨receipts, jobs, hreceipts, hjobs, rfl⟩ := flush_eq_some hflush
  have hflushed := And.intro (Table.Precedes.of_flush hreceipts) (Table.Precedes.of_flush hjobs)
  rcases hcase with ⟨-, rfl⟩ | ⟨new, inserted, -, hinserted, rfl⟩
  · exact hflushed
  · obtain ⟨-, receipts', jobs', hreceipts', hjobs', rfl⟩ := insertCreation_eq_some hinserted
    exact ⟨hflushed.1.trans (.of_insert hreceipts'), hflushed.2.trans (.of_insert hjobs')⟩

end Database

end ReceiptReview
