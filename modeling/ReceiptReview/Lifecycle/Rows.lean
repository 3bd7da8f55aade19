import ReceiptReview.Lifecycle.Runs

/-!
# The rows of any store

What holds of a commit whatever the store is, also one that no run has reached: an
operation writes back rows that it has read, and it changes neither their keys nor
their owners (`Revises`).  So a row that is stored at one moment of a history is
stored at every later moment, under the same key and with the same owner
(`Kept.extends`).
-/

namespace ReceiptReview

open Java Store ReceiptCase

variable {P : Platform} {employees : Table Employee} {snapshot db db' db'' : Database}
variable {operation : Operation} {reply : Reply} {changes : Database.Changes}

/-! ## What an operation writes -/

/-- The changed rows are rows of the snapshot with the same key and owner. -/
structure Database.Changes.Revises (changes : Database.Changes) (snapshot : Database) : Prop where
  receipts : ∀ receipt' ∈ changes.receipts, ∃ receipt,
    snapshot.receiptRow receipt'.id = some receipt ∧ SameReceipt receipt receipt' ∧
      receipt'.version = receipt.version
  jobs : ∀ job' ∈ changes.jobs, ∃ job, snapshot.findJob job'.id = some job ∧ SameJob job job' ∧
    job'.version = job.version

theorem revises_receipts {receipt receipt' : Receipt} {id : Long}
    (hread : snapshot.receiptRow id = some receipt) (hsame : SameReceipt receipt receipt')
    (hversion : receipt'.version = receipt.version) :
    ∀ changed ∈ [receipt'], ∃ receipt, snapshot.receiptRow changed.id = some receipt ∧
      SameReceipt receipt changed ∧ changed.version = receipt.version := by
  intro changed hmem
  rw [List.mem_singleton.mp hmem]
  refine ⟨receipt, ?_, hsame, hversion⟩
  rw [hsame.id, Database.id_of_receiptRow hread, hread]

theorem revises_jobs {job job' : ReceiptExtractionJob} {id : Long}
    (hread : snapshot.findJob id = some job) (hsame : SameJob job job')
    (hversion : job'.version = job.version) :
    ∀ changed ∈ [job'], ∃ job, snapshot.findJob changed.id = some job ∧ SameJob job changed ∧
      changed.version = job.version := by
  intro changed hmem
  rw [List.mem_singleton.mp hmem]
  refine ⟨job, ?_, hsame, hversion⟩
  rw [hsame.id, Database.id_of_findJob hread, hread]

/-- Every operation revises the snapshot that it has read. -/
theorem revises_of_body (hbody : operation.body snapshot = .ok (reply, changes)) :
    changes.Revises snapshot := by
  cases operation <;> simp only [Operation.body, replyWith_eq_ok] at hbody <;>
    obtain ⟨result, hresult, -⟩ := hbody
  case createQueued =>
      -- an intake inserts rows and revises none
      cases hresult
      exact ⟨by simp, by simp⟩
  case claimAvailable =>
      -- every job that was locked is claimed, and keeps its id and its receipt
      obtain ⟨claimed, hclaimed, -, -, rfl⟩ := ReceiptJobClaimService.claimAvailable_eq_ok hresult
      refine ⟨by simp, fun job' hmem => ?_⟩
      obtain ⟨job, hread, hclaim⟩ := hclaimed job' hmem
      have hjob' := (ReceiptExtractionJob.claim_eq_ok hclaim).2
      exact ⟨job, hread, ⟨by rw [hjob'], by rw [hjob']⟩, by rw [hjob']⟩
  case release =>
      obtain ⟨job, job', hread, hrelease, rfl⟩ := ReceiptJobClaimService.release_eq_ok hresult
      have hjob' := (ReceiptExtractionJob.releaseClaim_eq_ok hrelease).2
      exact ⟨by simp, revises_jobs hread ⟨by rw [hjob'], by rw [hjob']⟩ (by rw [hjob'])⟩
  case recoverExpired =>
      obtain ⟨recovered, events, hrecovered, -, rfl⟩ :=
        ExpiredJobRecoveryService.recoverExpired_eq_ok hresult
      refine ⟨by simp, fun job' hmem => ?_⟩
      obtain ⟨job, hread, hrecover⟩ := hrecovered job' hmem
      have hjob' := (ReceiptExtractionJob.recoverExpiredLease_eq_ok hrecover).2.2
      exact ⟨job, hread, ⟨by rw [hjob'], by rw [hjob']⟩, by rw [hjob']⟩
  case completeQualityRejection =>
      obtain ⟨job, receipt, job', hjob, -, hreceipt, hcomplete, rfl⟩ :=
        ReceiptExtractionLifecycleService.completeQualityRejection_eq_ok hresult
      have hjob' := (ReceiptExtractionJob.complete_eq_ok hcomplete).2
      exact ⟨revises_receipts hreceipt ⟨rfl, rfl, rfl, rfl⟩ rfl,
        revises_jobs hjob ⟨by rw [hjob'], by rw [hjob']⟩ (by rw [hjob'])⟩
  case completeExtraction =>
      obtain ⟨job, receipt, job', rules, hjob, -, hreceipt, hcomplete, -, rfl⟩ :=
        ReceiptExtractionLifecycleService.completeExtraction_eq_ok hresult
      have hjob' := (ReceiptExtractionJob.complete_eq_ok hcomplete).2
      exact ⟨revises_receipts hreceipt ⟨rfl, rfl, rfl, rfl⟩ rfl,
        revises_jobs hjob ⟨by rw [hjob'], by rw [hjob']⟩ (by rw [hjob'])⟩
  case scheduleRetry =>
      obtain ⟨job, receipt, job', nextRetryAt, hjob, -, -, hretry, rfl⟩ :=
        ReceiptExtractionLifecycleService.scheduleRetry_eq_ok hresult
      have hjob' := (ReceiptExtractionJob.scheduleRetry_eq_ok hretry).2
      exact ⟨by simp, revises_jobs hjob ⟨by rw [hjob'], by rw [hjob']⟩ (by rw [hjob'])⟩
  case failExtraction =>
      obtain ⟨job, receipt, job', hjob, -, hreceipt, hfail, rfl⟩ :=
        ReceiptExtractionLifecycleService.failExtraction_eq_ok hresult
      have hjob' := (ReceiptExtractionJob.fail_eq_ok hfail).2
      exact ⟨revises_receipts hreceipt ⟨rfl, rfl, rfl, rfl⟩ rfl,
        revises_jobs hjob ⟨by rw [hjob'], by rw [hjob']⟩ (by rw [hjob'])⟩
  case markDuplicate =>
      obtain ⟨receipt, job, hreceipt, hjob, -, -, hcase⟩ :=
        ReceiptPersistenceService.markDuplicate_eq_ok hresult
      have hreadJob := (Database.findJob_of_findJobByReceiptId hjob).1
      -- of the four ways to handle a duplicate only the last one writes the receipt
      rcases hcase with ⟨-, rfl⟩ | ⟨-, -, rfl⟩ | ⟨-, -, rfl⟩ | ⟨-, _, _, -, -, rfl⟩
      · exact ⟨by simp, by simp⟩
      · exact ⟨by simp, revises_jobs hreadJob ⟨rfl, rfl⟩ rfl⟩
      · exact ⟨by simp, revises_jobs hreadJob ⟨rfl, rfl⟩ rfl⟩
      · exact ⟨revises_receipts hreceipt ⟨rfl, rfl, rfl, rfl⟩ rfl,
          revises_jobs hreadJob ⟨rfl, rfl⟩ rfl⟩
  case correctFields =>
      obtain ⟨employee, receipt, -, hreceipt, -, -, -, -, rfl⟩ :=
        ReceiptCommandService.correctFields_eq_ok hresult
      exact ⟨revises_receipts hreceipt ⟨rfl, rfl, rfl, rfl⟩ rfl, by simp⟩
  case decide =>
      obtain ⟨employee, receipt, -, hreceipt, -, -, -, -, -, rfl⟩ :=
        ReceiptCommandService.decide_eq_ok hresult
      exact ⟨revises_receipts hreceipt ⟨rfl, rfl, rfl, rfl⟩ rfl, by simp⟩

/-! ## What a commit keeps -/

/-- Every row of the one store is stored in the other, with the same key and owner. -/
structure Database.KeptBy (db db' : Database) : Prop where
  receiptsPrecede : db.receipts.Precedes db'.receipts
  jobsPrecede : db.jobs.Precedes db'.jobs
  receipts : ∀ id receipt, db.receiptRow id = some receipt → ∃ receipt',
    db'.receiptRow id = some receipt' ∧ SameReceipt receipt receipt'
  jobs : ∀ id job, db.findJob id = some job → ∃ job',
    db'.findJob id = some job' ∧ SameJob job job'

theorem Database.KeptBy.refl (db : Database) : db.KeptBy db where
  receiptsPrecede := .refl _
  jobsPrecede := .refl _
  receipts _ receipt hreceipt := ⟨receipt, hreceipt, rfl, rfl, rfl, rfl⟩
  jobs _ job hjob := ⟨job, hjob, rfl, rfl⟩

theorem Database.KeptBy.trans (h : db.KeptBy db') (h' : db'.KeptBy db'') : db.KeptBy db'' where
  receiptsPrecede := h.receiptsPrecede.trans h'.receiptsPrecede
  jobsPrecede := h.jobsPrecede.trans h'.jobsPrecede
  receipts id receipt hreceipt := by
    obtain ⟨receipt', hreceipt', hsame⟩ := h.receipts id receipt hreceipt
    obtain ⟨receipt'', hreceipt'', hsame'⟩ := h'.receipts id receipt' hreceipt'
    exact ⟨receipt'', hreceipt'', hsame.trans hsame'⟩
  jobs id job hjob := by
    obtain ⟨job', hjob', hsame⟩ := h.jobs id job hjob
    obtain ⟨job'', hjob'', hsame'⟩ := h'.jobs id job' hjob'
    exact ⟨job'', hjob'', hsame'.id.trans hsame.id, hsame'.receiptId.trans hsame.receiptId⟩

/-- An empty store is kept by every store. -/
theorem Database.initial_keptBy (employees : Table Employee) (db : Database) :
    (Database.initial employees).KeptBy db where
  receiptsPrecede _ _ h := absurd h (by simp [Database.initial])
  jobsPrecede _ _ h := absurd h (by simp [Database.initial])
  receipts _ _ h := absurd h (by simp [Database.initial, Database.receiptRow])
  jobs _ _ h := absurd h (by simp [Database.initial, Database.findJob])

/-- The row that is stored in place of a receipt has its key and its owner. -/
theorem sameReceipt_updated (hrevises : changes.Revises snapshot) (hkept : snapshot.KeptBy db)
    (hcommit : db.commit P changes = .ok db') {id : Long} {receipt : Receipt}
    (hreceipt : db.receiptRow id = some receipt) :
    SameReceipt receipt (Table.updated changes.receipts receipt) := by
  rcases Table.updated_cases changes.receipts receipt with ⟨hsame, -⟩ | ⟨changed, hmem, hkey, hsame⟩
  · rw [hsame]
    exact ⟨rfl, rfl, rfl, rfl⟩
  · obtain ⟨read, hread, hchanged, hversion⟩ := hrevises.receipts changed hmem
    have hstored := stored_receipt hkept.receiptsPrecede hcommit hmem hread hchanged.id hversion
    have hid : read.id = id := by
      rw [← hchanged.id, ← Database.id_of_receiptRow hreceipt]
      exact hkey
    rw [hid, hreceipt] at hstored
    cases hstored
    rw [hsame]
    exact ⟨hchanged.id, hchanged.ownerEmployeeId, hchanged.companyId, hchanged.imageSha256⟩

theorem sameJob_updated (hrevises : changes.Revises snapshot) (hkept : snapshot.KeptBy db)
    (hcommit : db.commit P changes = .ok db') {id : Long} {job : ReceiptExtractionJob}
    (hjob : db.findJob id = some job) : SameJob job (Table.updated changes.jobs job) := by
  rcases Table.updated_cases changes.jobs job with ⟨hsame, -⟩ | ⟨changed, hmem, hkey, hsame⟩
  · rw [hsame]
    exact ⟨rfl, rfl⟩
  · obtain ⟨read, hread, hchanged, hversion⟩ := hrevises.jobs changed hmem
    have hstored := stored_job hkept.jobsPrecede hcommit hmem hread hchanged.id hversion
    have hid : read.id = id := by
      rw [← hchanged.id, ← Database.id_of_findJob hjob]
      exact hkey
    rw [hid, hjob] at hstored
    cases hstored
    rw [hsame]
    exact ⟨hchanged.id, hchanged.receiptId⟩

/-- A receipt is stored again as its update. -/
theorem receiptRow_after (hcommit : db.commit P changes = .ok db') {id : Long} {receipt : Receipt}
    (hreceipt : db.receiptRow id = some receipt) :
    db'.receiptRow id = some (Table.updated changes.receipts receipt) := by
  obtain ⟨flushed, hflush, hcase⟩ := Database.commit_cases hcommit
  obtain ⟨receipts, jobs, hreceipts, -, rfl⟩ := Database.flush_eq_some hflush
  have hflushed : receipts.find? id = some (Table.updated changes.receipts receipt) := by
    rw [Table.find?_flush hreceipts, show db.receipts.find? id = some receipt from hreceipt]
    rfl
  rcases hcase with ⟨-, rfl⟩ | ⟨new, inserted, -, hinserted, rfl⟩
  · exact hflushed
  · obtain ⟨-, receipts', jobs', hinsert, -, rfl⟩ := Database.insertCreation_eq_some hinserted
    refine (Table.find?_insert_other hinsert ?_).trans hflushed
    rintro rfl
    rw [(Table.find?_insert_self hinsert).1] at hflushed
    exact absurd hflushed (by simp)

/-- A job is stored again as its update. -/
theorem findJob_after (hcommit : db.commit P changes = .ok db') {id : Long}
    {job : ReceiptExtractionJob} (hjob : db.findJob id = some job) :
    db'.findJob id = some (Table.updated changes.jobs job) := by
  obtain ⟨flushed, hflush, hcase⟩ := Database.commit_cases hcommit
  obtain ⟨receipts, jobs, -, hjobs, rfl⟩ := Database.flush_eq_some hflush
  have hflushed : jobs.find? id = some (Table.updated changes.jobs job) := by
    rw [Table.find?_flush hjobs, show db.jobs.find? id = some job from hjob]
    rfl
  rcases hcase with ⟨-, rfl⟩ | ⟨new, inserted, -, hinserted, rfl⟩
  · exact hflushed
  · obtain ⟨-, receipts', jobs', -, hinsert, rfl⟩ := Database.insertCreation_eq_some hinserted
    refine (Table.find?_insert_other hinsert ?_).trans hflushed
    rintro rfl
    rw [(Table.find?_insert_self hinsert).1] at hflushed
    exact absurd hflushed (by simp)

/-- A job that is stored after a commit is the update of a stored job, or new. -/
theorem findJob_before (hcommit : db.commit P changes = .ok db') {id : Long}
    {job : ReceiptExtractionJob} (hjob : db'.findJob id = some job) :
    (∃ stored, db.findJob id = some stored ∧ job = Table.updated changes.jobs stored) ∨
      ∃ new, changes.created = some new ∧ new.job = job := by
  obtain ⟨flushed, hflush, hcase⟩ := Database.commit_cases hcommit
  obtain ⟨receipts, jobs, -, hjobs, rfl⟩ := Database.flush_eq_some hflush
  have hflushed : jobs.find? id = some job →
      ∃ stored, db.findJob id = some stored ∧ job = Table.updated changes.jobs stored := by
    intro hfound
    rw [Table.find?_flush hjobs] at hfound
    obtain ⟨stored, hstored, hupdated⟩ := Option.map_eq_some_iff.mp hfound
    exact ⟨stored, hstored, hupdated.symm⟩
  rcases hcase with ⟨-, rfl⟩ | ⟨new, inserted, hcreated, hinserted, rfl⟩
  · exact .inl (hflushed hjob)
  · obtain ⟨-, receipts', jobs', -, hinsert, rfl⟩ := Database.insertCreation_eq_some hinserted
    have hfound : jobs'.find? id = some job := hjob
    rw [Table.find?_insert hinsert] at hfound
    split at hfound
    · exact .inr ⟨new, hcreated, Option.some.inj hfound⟩
    · exact .inl (hflushed hfound)

theorem idempotencyRecords_after (hcommit : db.commit P changes = .ok db') :
    db'.idempotencyRecords =
      db.idempotencyRecords ++ (changes.created.bind Database.Creation.record).toList := by
  obtain ⟨flushed, hflush, hcase⟩ := Database.commit_cases hcommit
  obtain ⟨receipts, jobs, -, -, rfl⟩ := Database.flush_eq_some hflush
  rcases hcase with ⟨hcreated, rfl⟩ | ⟨new, inserted, hcreated, hinserted, rfl⟩
  · rw [hcreated]
    exact (List.append_nil _).symm
  · obtain ⟨-, receipts', jobs', -, -, rfl⟩ := Database.insertCreation_eq_some hinserted
    rw [hcreated]
    rfl

/-- A commit keeps the rows of the store. -/
theorem Database.KeptBy.of_commit (hrevises : changes.Revises snapshot)
    (hkept : snapshot.KeptBy db) (hcommit : db.commit P changes = .ok db') : db.KeptBy db' where
  receiptsPrecede := (Database.precedes_commit hcommit).1
  jobsPrecede := (Database.precedes_commit hcommit).2
  receipts _ _ hreceipt :=
    ⟨_, receiptRow_after hcommit hreceipt, sameReceipt_updated hrevises hkept hcommit hreceipt⟩
  jobs _ _ hjob := ⟨_, findJob_after hcommit hjob, sameJob_updated hrevises hkept hcommit hjob⟩

/-! ## Histories -/

/-- Every store of the history is kept by the last one. -/
def Kept (employees : Table Employee) (trace : List Commit) : Prop :=
  ∀ snapshot ∈ snapshots employees trace, snapshot.KeptBy (current employees trace)

/-- A history of which nothing is known but the store that it has led to. -/
def Database.asHistory (db : Database) : List Commit :=
  [{ operation := .recoverExpired 0 0 [], reply := .nothing, changes := {}, before := db,
     after := db }]

theorem kept_asHistory (employees : Table Employee) (db : Database) :
    Kept employees db.asHistory := by
  intro snapshot hsnapshot
  simp only [Database.asHistory, snapshots, List.mem_cons, List.not_mem_nil, or_false] at hsnapshot
  rcases hsnapshot with rfl | rfl
  · exact .refl _
  · exact Database.initial_keptBy employees db

variable {trace trace' earlier : List Commit}

/-- One commit after the other keeps the rows of all stores before. -/
theorem Kept.extends (h : Kept employees trace)
    (hextends : Extends P employees trace operation reply trace') : Kept employees trace' := by
  obtain ⟨read, hread, changes, after, hbody, hcommit, rfl⟩ := hextends
  have hnext : (current employees trace).KeptBy after :=
    .of_commit (revises_of_body hbody) (h read hread) hcommit
  intro snapshot hsnapshot
  rcases List.mem_cons.mp hsnapshot with rfl | hsnapshot
  · exact .refl _
  · exact (h snapshot hsnapshot).trans hnext

theorem Kept.of_suffix (h : Kept employees trace) (hearlier : earlier <:+ trace) :
    (current employees earlier).KeptBy (current employees trace) :=
  h _ (mem_snapshots_iff.mpr ⟨earlier, hearlier, rfl⟩)

end ReceiptReview
