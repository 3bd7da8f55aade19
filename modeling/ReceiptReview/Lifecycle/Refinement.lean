import ReceiptReview.Lifecycle.Case

/-!
# The database refines the cases

Every commit of a run takes each stored case one step, or leaves it as it is.
The argument has two parts.  A transaction that commits has read the rows it
writes as they still are, by optimistic locking, so its effect on them is a step
from the stored case and not only from the case in its snapshot.  And receipts
and jobs correspond one to one, so a transaction that writes one case touches no
other.

The one row that a transaction acts on without writing it is the receipt in
`markDuplicate`; there the agreement of the two entities, in the snapshot and
now, takes the place of the version check.
-/

namespace ReceiptReview

open Java Store ReceiptCase ReceiptPersistenceService

/-! ## The cases of a database -/

/-- A stored receipt and the job stored for it. -/
structure Database.HasCase (db : Database) (x : ReceiptCase) : Prop where
  receipt : db.receiptRow x.receipt.id = some x.receipt
  job : db.findJob x.job.id = some x.job
  receiptId : x.job.receiptId = x.receipt.id

/-- Receipts and jobs correspond one to one. -/
structure Database.Paired (db : Database) : Prop where
  of_receipt : ∀ {id : Long} {receipt : Receipt}, db.receiptRow id = some receipt →
    ∃ x, db.HasCase x ∧ x.receipt = receipt
  of_job : ∀ {id : Long} {job : ReceiptExtractionJob}, db.findJob id = some job →
    ∃ x, db.HasCase x ∧ x.job = job
  unique : ∀ {x y : ReceiptCase}, db.HasCase x → db.HasCase y → x.receipt.id = y.receipt.id → x = y

variable {P : Platform} {employees : Table Employee} {snapshot db db' : Database}
variable {changes : Database.Changes} {operation : Operation} {x y : ReceiptCase}

theorem Database.id_of_receiptRow {id : Long} {receipt : Receipt}
    (h : db.receiptRow id = some receipt) : receipt.id = id :=
  Table.key_of_find? h

theorem Database.id_of_findReceipt {id : Long} {receipt : Receipt}
    (h : db.findReceipt id = some receipt) : receipt.id = id := by
  obtain ⟨row, hrow, rfl⟩ := Database.findReceipt_eq_some.mp h
  exact row.id_reread.trans (Database.id_of_receiptRow hrow)

theorem Database.id_of_findJob {id : Long} {job : ReceiptExtractionJob}
    (h : db.findJob id = some job) : job.id = id :=
  Table.key_of_find? h

theorem Database.findJob_of_findJobByReceiptId {id : Long} {job : ReceiptExtractionJob}
    (h : db.findJobByReceiptId id = some job) :
    db.findJob job.id = some job ∧ job.receiptId = id :=
  ⟨Table.find?_of_mem (List.mem_of_find?_eq_some h), by simpa using List.find?_some h⟩

theorem Database.HasCase.eq_of_jobId (hx : db.HasCase x) (hy : db.HasCase y)
    (h : x.job.id = y.job.id) : x = y := by
  have hjob : x.job = y.job := by
    have := hx.job
    rw [h, hy.job] at this
    exact (Option.some.inj this).symm
  have hreceipt : x.receipt = y.receipt := by
    have := hx.receipt
    rw [← hx.receiptId, hjob, hy.receiptId, hy.receipt] at this
    exact (Option.some.inj this).symm
  cases x
  cases y
  simp only [ReceiptCase.mk.injEq]
  exact ⟨hreceipt, hjob⟩

/-- The job that the repository finds for a receipt is the job of its case. -/
theorem Database.Paired.findJobByReceiptId (hdb : db.Paired) (hx : db.HasCase x) :
    db.findJobByReceiptId x.receipt.id = some x.job := by
  cases hfound : db.findJobByReceiptId x.receipt.id with
  | none =>
      have hmem : x.job ∈ db.jobs.rows := Table.mem_of_find? hx.job
      have := List.find?_eq_none.mp hfound x.job hmem
      exact absurd hx.receiptId (by simpa using this)
  | some job =>
      obtain ⟨hjob, hreceiptId⟩ := findJob_of_findJobByReceiptId hfound
      obtain ⟨y, hy, rfl⟩ := hdb.of_job hjob
      rw [hdb.unique hx hy (hy.receiptId.symm.trans hreceiptId).symm]

/-- What the changed entities of a transaction make of a case. -/
def ReceiptCase.updated (changes : Database.Changes) (x : ReceiptCase) : ReceiptCase where
  receipt := Table.updated changes.receipts x.receipt
  job := Table.updated changes.jobs x.job

/-- The audit events about one receipt. -/
def eventsFor (receiptId : Long) (events : List AuditEvent) : List AuditEvent :=
  events.filter fun event => event.receiptId = receiptId

theorem eventsFor_append (receiptId : Long) (events events' : List AuditEvent) :
    eventsFor receiptId (events ++ events') =
      eventsFor receiptId events ++ eventsFor receiptId events' :=
  List.filter_append ..

theorem eventsFor_eq_self {receiptId : Long} {events : List AuditEvent}
    (h : ∀ event ∈ events, event.receiptId = receiptId) : eventsFor receiptId events = events :=
  List.filter_eq_self.mpr (by simpa using h)

theorem eventsFor_eq_nil {receiptId : Long} {events : List AuditEvent}
    (h : ∀ event ∈ events, event.receiptId ≠ receiptId) : eventsFor receiptId events = [] :=
  List.filter_eq_nil_iff.mpr (by simpa using h)

/-- The changes of an operation leave a case alone, or take it one step. -/
def ReceiptCase.Settles (employees : Table Employee) (operation : Operation)
    (changes : Database.Changes) (x : ReceiptCase) : Prop :=
  x.updated changes = x ∧ eventsFor x.receipt.id changes.events = [] ∨
    Step employees operation x (eventsFor x.receipt.id changes.events) (x.updated changes)

/-- The changes of an operation are steps of stored cases, and nothing else. -/
structure Database.Settled (db : Database) (employees : Table Employee) (operation : Operation)
    (changes : Database.Changes) : Prop where
  settles : ∀ {x : ReceiptCase}, db.HasCase x → x.Settles employees operation changes
  audited : ∀ event ∈ changes.events, ∃ x, db.HasCase x ∧ x.receipt.id = event.receiptId

/-! ## Changes of one case -/

theorem updated_job {job' : ReceiptExtractionJob} {events : List AuditEvent}
    (hid : job'.id = x.job.id) (hversion : job'.version = x.job.version) :
    x.updated { jobs := [job'], events } = ⟨x.receipt, job'.flushed⟩ := by
  have hjob : Table.updated [job'] x.job = _ := Table.updated_singleton_self hid
  simp [ReceiptCase.updated, hjob, ReceiptExtractionJob.flushed, hversion]

theorem updated_receipt {receipt' : Receipt} {events : List AuditEvent}
    (hid : receipt'.id = x.receipt.id) (hversion : receipt'.version = x.receipt.version) :
    x.updated { receipts := [receipt'], events } = ⟨receipt'.flushed, x.job⟩ := by
  have hreceipt : Table.updated [receipt'] x.receipt = _ := Table.updated_singleton_self hid
  simp [ReceiptCase.updated, hreceipt, Receipt.flushed, hversion]

theorem updated_both {receipt' : Receipt} {job' : ReceiptExtractionJob}
    (hreceipts : changes.receipts = [receipt']) (hjobs : changes.jobs = [job'])
    (hreceipt' : receipt'.id = x.receipt.id ∧ receipt'.version = x.receipt.version)
    (hjob' : job'.id = x.job.id ∧ job'.version = x.job.version) :
    x.updated changes = ⟨receipt'.flushed, job'.flushed⟩ := by
  have hreceipt : Table.updated [receipt'] x.receipt = _ :=
    Table.updated_singleton_self hreceipt'.1
  have hjob : Table.updated [job'] x.job = _ := Table.updated_singleton_self hjob'.1
  simp [ReceiptCase.updated, hreceipts, hjobs, hreceipt, hjob, Receipt.flushed,
    ReceiptExtractionJob.flushed, hreceipt'.2, hjob'.2]

theorem updated_eq_self (hreceipts : ∀ receipt' ∈ changes.receipts, receipt'.id ≠ x.receipt.id)
    (hjobs : ∀ job' ∈ changes.jobs, job'.id ≠ x.job.id) : x.updated changes = x := by
  have hreceipt : Table.updated changes.receipts x.receipt = x.receipt := by
    rcases Table.updated_cases changes.receipts x.receipt with h | ⟨receipt', hmem, hkey, -⟩
    · exact h.1
    · exact absurd hkey (hreceipts receipt' hmem)
  have hjob : Table.updated changes.jobs x.job = x.job := by
    rcases Table.updated_cases changes.jobs x.job with h | ⟨job', hmem, hkey, -⟩
    · exact h.1
    · exact absurd hkey (hjobs job' hmem)
  unfold ReceiptCase.updated
  rw [hreceipt, hjob]

/-- A transaction that writes only the entities and the log of one case, and
takes it one step, leaves the others alone. -/
theorem settled_of_focus (hdb : db.Paired) (hy : db.HasCase y)
    (hreceipts : ∀ receipt' ∈ changes.receipts, receipt'.id = y.receipt.id)
    (hjobs : ∀ job' ∈ changes.jobs, job'.id = y.job.id)
    (hevents : ∀ event ∈ changes.events, event.receiptId = y.receipt.id)
    (hstep : Step employees operation y changes.events (y.updated changes)) :
    db.Settled employees operation changes := by
  refine ⟨fun {x} hx => ?_, fun event hmem => ⟨y, hy, (hevents event hmem).symm⟩⟩
  by_cases heq : x = y
  · subst heq
    right
    rwa [eventsFor_eq_self hevents]
  · left
    -- receipts and jobs are paired one to one, so the keys of another case differ
    have hreceiptId : x.receipt.id ≠ y.receipt.id := fun h => heq (hdb.unique hx hy h)
    have hjobId : x.job.id ≠ y.job.id := fun h => heq (hx.eq_of_jobId hy h)
    refine ⟨updated_eq_self ?_ ?_, eventsFor_eq_nil ?_⟩
    · exact fun receipt' hmem h => hreceiptId (h.symm.trans (hreceipts receipt' hmem))
    · exact fun job' hmem h => hjobId (h.symm.trans (hjobs job' hmem))
    · exact fun event hmem h => hreceiptId (h.symm.trans (hevents event hmem))

/-- A transaction that writes a batch of jobs, and takes the case of each one
step, leaves the others alone. -/
theorem settled_of_batch {jobs : List ReceiptExtractionJob} {events : List AuditEvent}
    (hdb : db.Paired)
    (hjobs : ∀ job' ∈ jobs, ∃ y, db.HasCase y ∧ job'.id = y.job.id ∧
      job'.receiptId = y.job.receiptId ∧ job'.version = y.job.version ∧
      ∀ about, (∀ event ∈ about, event ∈ events) →
        Step employees operation y about ⟨y.receipt, job'.flushed⟩)
    (hevents : ∀ event ∈ events, ∃ job' ∈ jobs, event.receiptId = job'.receiptId) :
    db.Settled employees operation { jobs, events } := by
  have habout : ∀ event ∈ events, ∃ job' ∈ jobs, ∃ y, db.HasCase y ∧ job'.id = y.job.id ∧
      y.receipt.id = event.receiptId := by
    intro event hmem
    obtain ⟨job', hjob', hjobReceipt⟩ := hevents event hmem
    obtain ⟨y, hy, hyId, hyReceipt, -, -⟩ := hjobs job' hjob'
    exact ⟨job', hjob', y, hy, hyId, by rw [← hy.receiptId, ← hyReceipt, hjobReceipt]⟩
  refine ⟨fun {x} hx => ?_, fun event hmem => ?_⟩
  swap
  · obtain ⟨-, -, y, hy, -, hreceiptId⟩ := habout event hmem
    exact ⟨y, hy, hreceiptId⟩
  rcases Table.updated_cases jobs x.job with ⟨hsame, hother⟩ | ⟨job', hmem, hid, hupdated⟩
  · left
    -- the job is not in the batch, and every event is about a job of the batch
    refine ⟨updated_eq_self (by simp) hother, eventsFor_eq_nil ?_⟩
    intro event hmem hreceiptId
    obtain ⟨job', hjob', y, hy, hyId, hyReceipt⟩ := habout event hmem
    rw [hdb.unique hy hx (hyReceipt.trans hreceiptId)] at hyId
    exact hother job' hjob' hyId
  · right
    obtain ⟨y, hy, hyId, -, hyVersion, hstep⟩ := hjobs job' hmem
    obtain rfl : y = x := hy.eq_of_jobId hx (hyId.symm.trans hid)
    have hafter : y.updated { jobs, events } = ⟨y.receipt, job'.flushed⟩ := by
      simp [ReceiptCase.updated, hupdated, ReceiptExtractionJob.flushed, hyVersion]
    rw [hafter]
    exact hstep _ fun event hevent => List.mem_of_mem_filter hevent

/-- The stored cases are cases of the runs, with their part of the log. -/
structure Database.Refines (P : Platform) (employees : Table Employee) (db : Database) : Prop where
  paired : db.Paired
  reaches : ∀ {x : ReceiptCase}, db.HasCase x →
    Reaches P employees x (eventsFor x.receipt.id db.auditEvents)
  audited : ∀ event ∈ db.auditEvents, ∃ x, db.HasCase x ∧ x.receipt.id = event.receiptId
  employees : db.employees = employees

/-! ## The operations, one by one -/

section Operations

variable (hsnapshot : snapshot.Refines P employees) (hdb : db.Refines P employees)
variable (hreceipts : snapshot.receipts.Precedes db.receipts)
variable (hjobs : snapshot.jobs.Precedes db.jobs) (hcommit : db.commit P changes = .ok db')

include hreceipts hcommit in
/-- A receipt that is written back was read as it still is. -/
theorem stored_receipt {id : Long} {receipt receipt' : Receipt}
    (hmem : receipt' ∈ changes.receipts) (hread : snapshot.receiptRow id = some receipt)
    (hid : receipt'.id = receipt.id) (hversion : receipt'.version = receipt.version) :
    db.receiptRow receipt.id = some receipt := by
  obtain ⟨flushed, hflush, -⟩ := Database.commit_cases hcommit
  obtain ⟨receipts, jobs, hwritten, -, -⟩ := Database.flush_eq_some hflush
  rw [← Database.id_of_receiptRow hread, ← hid] at hread
  rw [← hid]
  exact hreceipts.stored_of_flush hwritten hmem hread hversion

include hjobs hcommit in
/-- A job that is written back was read as it still is. -/
theorem stored_job {id : Long} {job job' : ReceiptExtractionJob} (hmem : job' ∈ changes.jobs)
    (hread : snapshot.findJob id = some job) (hid : job'.id = job.id)
    (hversion : job'.version = job.version) : db.findJob job.id = some job := by
  obtain ⟨flushed, hflush, -⟩ := Database.commit_cases hcommit
  obtain ⟨receipts, jobs, -, hwritten, -⟩ := Database.flush_eq_some hflush
  rw [← Database.id_of_findJob hread, ← hid] at hread
  rw [← hid]
  exact hjobs.stored_of_flush hwritten hmem hread hversion

include hreceipts hjobs hcommit in
/-- A receipt and its job that are written back together were read as they still are. -/
theorem hasCase_of_written {receiptId jobId : Long} {receipt receipt' : Receipt}
    {job job' : ReceiptExtractionJob} (hreceipt' : receipt' ∈ changes.receipts)
    (hjob' : job' ∈ changes.jobs) (hreadReceipt : snapshot.receiptRow receiptId = some receipt)
    (hreadJob : snapshot.findJob jobId = some job) (hjobReceipt : job.receiptId = receiptId)
    (hreceiptId : receipt'.id = receipt.id) (hreceiptVersion : receipt'.version = receipt.version)
    (hjobId : job'.id = job.id) (hjobVersion : job'.version = job.version) :
    db.HasCase ⟨receipt, job⟩ where
  receipt := stored_receipt hreceipts hcommit hreceipt' hreadReceipt hreceiptId hreceiptVersion
  job := stored_job hjobs hcommit hjob' hreadJob hjobId hjobVersion
  receiptId := hjobReceipt.trans (Database.id_of_receiptRow hreadReceipt).symm

include hdb hreceipts hjobs hcommit in
/-- A transaction that writes a receipt and its job back together takes their case the step
that it takes from the two as it has read them. -/
theorem settled_of_written {receiptId jobId : Long} {receipt receipt' : Receipt}
    {job job' : ReceiptExtractionJob} (hreadReceipt : snapshot.receiptRow receiptId = some receipt)
    (hreadJob : snapshot.findJob jobId = some job) (hjobReceipt : job.receiptId = receiptId)
    (hwritten : changes.receipts = [receipt']) (hwrittenJob : changes.jobs = [job'])
    (hreceipt' : receipt'.id = receipt.id ∧ receipt'.version = receipt.version)
    (hjob' : job'.id = job.id ∧ job'.version = job.version)
    (hevents : ∀ event ∈ changes.events, event.receiptId = receipt.id)
    (hstep : Step employees operation ⟨receipt, job⟩ changes.events
      ⟨receipt'.flushed, job'.flushed⟩) :
    db.Settled employees operation changes := by
  have hy := hasCase_of_written hreceipts hjobs hcommit (by simp [hwritten])
    (by simp [hwrittenJob]) hreadReceipt hreadJob hjobReceipt hreceipt'.1 hreceipt'.2 hjob'.1
    hjob'.2
  refine settled_of_focus hdb.paired hy (by simp [hwritten, hreceipt'.1])
    (by simp [hwrittenJob, hjob'.1]) hevents ?_
  rwa [updated_both hwritten hwrittenJob hreceipt' hjob']

include hdb hjobs hcommit in
theorem settled_claimAvailable {workerId : JString} {batchSize leaseDuration : ℤ} {now : Instant}
    {tokens : Long → JString} {locked : List Long} {claims : List ClaimedReceiptJob}
    (h : ReceiptJobClaimService.claimAvailable snapshot workerId batchSize leaseDuration now tokens
      locked = .ok (claims, changes)) :
    db.Settled employees (.claimAvailable workerId batchSize leaseDuration now tokens locked)
      changes := by
  obtain ⟨claimed, hclaimed, -, -, rfl⟩ := ReceiptJobClaimService.claimAvailable_eq_ok h
  refine settled_of_batch hdb.paired ?_ ?_
  · intro job' hmem
    obtain ⟨job, hread, hclaim⟩ := hclaimed job' hmem
    have hjob' := (ReceiptExtractionJob.claim_eq_ok hclaim).2
    have hstored := stored_job hjobs hcommit hmem hread (by rw [hjob']) (by rw [hjob'])
    obtain ⟨y, hy, rfl⟩ := hdb.paired.of_job hstored
    refine ⟨y, hy, by rw [hjob'], by rw [hjob'], by rw [hjob'], ?_⟩
    intro about habout
    refine .claimed hclaim fun event hevent => ?_
    obtain ⟨job', -, rfl⟩ := List.mem_map.mp (habout event hevent)
    rfl
  · intro event hmem
    obtain ⟨job', hjob', rfl⟩ := List.mem_map.mp hmem
    exact ⟨job', hjob', rfl⟩

include hdb hjobs hcommit in
theorem settled_recoverExpired {batchSize : ℤ} {now : Instant} {locked : List Long} {u : Unit}
    (h : ExpiredJobRecoveryService.recoverExpired snapshot batchSize now locked =
      .ok (u, changes)) :
    db.Settled employees (.recoverExpired batchSize now locked) changes := by
  obtain ⟨recovered, events, hrecovered, hevents, rfl⟩ :=
    ExpiredJobRecoveryService.recoverExpired_eq_ok h
  refine settled_of_batch hdb.paired ?_ (fun event hmem => (hevents event hmem).2.2)
  intro job' hmem
  obtain ⟨job, hread, hrecover⟩ := hrecovered job' hmem
  have hjob' := (ReceiptExtractionJob.recoverExpiredLease_eq_ok hrecover).2.2
  have hstored := stored_job hjobs hcommit hmem hread (by rw [hjob']) (by rw [hjob'])
  obtain ⟨y, hy, rfl⟩ := hdb.paired.of_job hstored
  refine ⟨y, hy, by rw [hjob'], by rw [hjob'], by rw [hjob'], ?_⟩
  exact fun about habout => .recovered hrecover fun event hevent =>
    (hevents event (habout event hevent)).1

include hdb hjobs hcommit in
theorem settled_release {claim : ClaimedReceiptJob} {now : Instant} {u : Unit}
    (h : ReceiptJobClaimService.release snapshot claim now = .ok (u, changes)) :
    db.Settled employees (.release claim now) changes := by
  obtain ⟨job, job', hread, hrelease, rfl⟩ := ReceiptJobClaimService.release_eq_ok h
  have hjob' := (ReceiptExtractionJob.releaseClaim_eq_ok hrelease).2
  have hid : job.id = claim.jobId := Database.id_of_findJob hread
  have hstored := stored_job hjobs hcommit (List.mem_singleton_self job') hread
    (by rw [hjob']) (by rw [hjob'])
  obtain ⟨y, hy, rfl⟩ := hdb.paired.of_job hstored
  refine settled_of_focus hdb.paired hy (by simp) (by simp [hjob']) (by simp) ?_
  rw [updated_job (by rw [hjob']) (by rw [hjob'])]
  exact .released hid.symm hrelease

include hdb hreceipts hjobs hcommit in
theorem settled_completeQualityRejection {claim : ClaimedReceiptJob}
    {quality : ImageQualityResult} {now : Instant} {result : Receipt}
    (h : ReceiptExtractionLifecycleService.completeQualityRejection snapshot claim quality now =
      .ok (result, changes)) :
    db.Settled employees (.completeQualityRejection claim quality now) changes := by
  obtain ⟨job, receipt, job', hreadJob, hjobReceipt, hreadReceipt, hcomplete, rfl⟩ :=
    ReceiptExtractionLifecycleService.completeQualityRejection_eq_ok h
  have hjob' := (ReceiptExtractionJob.complete_eq_ok hcomplete).2
  refine settled_of_written hdb hreceipts hjobs hcommit hreadReceipt hreadJob hjobReceipt rfl rfl
    ⟨rfl, rfl⟩ (by rw [hjob']; exact ⟨rfl, rfl⟩) (by simp [systemEvent]) ?_
  exact .qualityRejected (Database.id_of_findJob hreadJob).symm
    (Database.id_of_receiptRow hreadReceipt).symm hcomplete

include hdb hreceipts hjobs hcommit in
theorem settled_completeExtraction {claim : ClaimedReceiptJob} {extraction : ExtractionResult}
    {extractedAt completedAt : Instant} {today : LocalDate} {result : Receipt}
    (h : ReceiptExtractionLifecycleService.completeExtraction snapshot claim extraction extractedAt
      today completedAt = .ok (result, changes)) :
    db.Settled employees (.completeExtraction claim extraction extractedAt today completedAt)
      changes := by
  obtain ⟨job, receipt, job', rules, hreadJob, hjobReceipt, hreadReceipt, hcomplete, hrules, rfl⟩ :=
    ReceiptExtractionLifecycleService.completeExtraction_eq_ok h
  have hjob' := (ReceiptExtractionJob.complete_eq_ok hcomplete).2
  refine settled_of_written hdb hreceipts hjobs hcommit hreadReceipt hreadJob hjobReceipt rfl rfl
    ⟨rfl, rfl⟩ (by rw [hjob']; exact ⟨rfl, rfl⟩) (by simp [systemEvent]) ?_
  exact .extracted (Database.id_of_findJob hreadJob).symm
    (Database.id_of_receiptRow hreadReceipt).symm hcomplete hrules

include hdb hjobs hcommit in
theorem settled_scheduleRetry {claim : ClaimedReceiptJob} {errorCode : JString}
    {errorMessage : Option JString} {requestedRetryAt now : Instant} {result : Receipt}
    (h : ReceiptExtractionLifecycleService.scheduleRetry snapshot claim errorCode errorMessage
      requestedRetryAt now = .ok (result, changes)) :
    db.Settled employees (.scheduleRetry claim errorCode errorMessage requestedRetryAt now)
      changes := by
  obtain ⟨job, receipt, job', nextRetryAt, hreadJob, hjobReceipt, hreadReceipt, hretry, rfl⟩ :=
    ReceiptExtractionLifecycleService.scheduleRetry_eq_ok h
  have hjob' := (ReceiptExtractionJob.scheduleRetry_eq_ok hretry).2
  have hstored := stored_job hjobs hcommit (List.mem_singleton_self _) hreadJob
    (by rw [hjob']) (by rw [hjob'])
  obtain ⟨y, hy, rfl⟩ := hdb.paired.of_job hstored
  -- the receipt is not written back; only its key is used
  have hreceiptId : receipt.id = y.receipt.id := by
    rw [Database.id_of_receiptRow hreadReceipt, ← hjobReceipt, hy.receiptId]
  rw [hreceiptId]
  refine settled_of_focus hdb.paired hy (by simp) (by simp [hjob']) (by simp [systemEvent]) ?_
  rw [updated_job (by rw [hjob']) (by rw [hjob'])]
  exact .retryScheduled (Database.id_of_findJob hreadJob).symm
    (hjobReceipt.symm.trans hy.receiptId) hretry

include hdb hreceipts hjobs hcommit in
theorem settled_failExtraction {claim : ClaimedReceiptJob} {errorCode : JString}
    {errorMessage : Option JString} {now : Instant} {result : Receipt}
    (h : ReceiptExtractionLifecycleService.failExtraction snapshot claim errorCode errorMessage
      now = .ok (result, changes)) :
    db.Settled employees (.failExtraction claim errorCode errorMessage now) changes := by
  obtain ⟨job, receipt, job', hreadJob, hjobReceipt, hreadReceipt, hfail, rfl⟩ :=
    ReceiptExtractionLifecycleService.failExtraction_eq_ok h
  have hjob' := (ReceiptExtractionJob.fail_eq_ok hfail).2
  refine settled_of_written hdb hreceipts hjobs hcommit hreadReceipt hreadJob hjobReceipt rfl rfl
    ⟨rfl, rfl⟩ (by rw [hjob']; exact ⟨rfl, rfl⟩) (by simp [systemEvent]) ?_
  exact .failed (Database.id_of_findJob hreadJob).symm
    (Database.id_of_receiptRow hreadReceipt).symm hfail

include hsnapshot hdb hreceipts hjobs hcommit in
/-- The receipt that `markDuplicate` has read is not always written back.  That
its status is still null follows from the job, which is: while the job is
pending, the receipt has no status.  And a duplicate that the rules report but
the job does not is in no snapshot. -/
theorem settled_markDuplicate {receiptId : Long} {now : Instant} {today : LocalDate}
    {result : Receipt}
    (h : ReceiptPersistenceService.markDuplicate snapshot receiptId now today =
      .ok (result, changes)) :
    db.Settled employees (.markDuplicate receiptId now today) changes := by
  obtain ⟨receipt, job, hreadReceipt, hfoundJob, -, -, hcase⟩ := markDuplicate_eq_ok h
  obtain ⟨hreadJob, hjobReceipt⟩ := Database.findJob_of_findJobByReceiptId hfoundJob
  have hid : receipt.id = receiptId := Database.id_of_receiptRow hreadReceipt
  have hthen : snapshot.HasCase ⟨receipt, job⟩ :=
    ⟨by simpa [hid] using hreadReceipt, hreadJob, by simpa [hid] using hjobReceipt⟩
  have hconsistent := (hsnapshot.reaches hthen).consistent
  rcases hcase with ⟨-, rfl⟩ | ⟨hflag, hstatus, rfl⟩ | ⟨hflag, hmarked, rfl⟩ |
    ⟨hflag, previous, next, hstatus, hnext, rfl⟩
  · -- the flag was set before: nothing is written
    exact ⟨fun _ => .inl ⟨updated_eq_self (by simp) (by simp), eventsFor_eq_nil (by simp)⟩,
      by simp⟩
  · -- the job is pending: the rule is deferred, and only the job is written
    have hstored := stored_job hjobs hcommit (List.mem_singleton_self _) hreadJob rfl rfl
    obtain ⟨y, hy, rfl⟩ := hdb.paired.of_job hstored
    have hreceiptId : y.receipt.id = receipt.id := by rw [← hy.receiptId, hjobReceipt, hid]
    have hnow : y.receipt.status = none :=
      (hdb.reaches hy).consistent.status_iff.mpr (hconsistent.status_iff.mp hstatus)
    rw [← hid, ← hreceiptId]
    refine settled_of_focus hdb.paired hy (by simp) (by simp [ReceiptExtractionJob.markDuplicate])
      (by simp [deferredEvent, systemEvent]) ?_
    rw [updated_job (by rfl) (by rfl)]
    exact .duplicateDeferred hflag hnow
  · -- the rules report no duplicate that the job does not
    exact absurd (hconsistent.flagged hmarked) (by simp [hflag])
  · -- the receipt has been processed: both entities are written
    rw [← hid]
    refine settled_of_written hdb hreceipts hjobs hcommit hreadReceipt hreadJob hjobReceipt rfl rfl
      ⟨rfl, rfl⟩ ⟨rfl, rfl⟩ (by simp [duplicateEvent, systemEvent, hid]) ?_
    exact Step.duplicateMarked (x := ⟨receipt, job⟩) hflag hstatus hnext

include hsnapshot hdb hreceipts hcommit in
theorem settled_correctFields {session : Session} {receiptId : Long} {expectedVersion : ℤ}
    {corrections : FieldCorrections} {today : LocalDate} {now : Instant} {result : Receipt}
    (h : ReceiptCommandService.correctFields snapshot session receiptId expectedVersion corrections
      today now = .ok (result, changes)) :
    db.Settled employees (.correctFields session receiptId expectedVersion corrections today now)
      changes := by
  obtain ⟨employee, receipt, hemployee, hread, hpermission, hversion, heditable, -, rfl⟩ :=
    ReceiptCommandService.correctFields_eq_ok h
  have hstored := stored_receipt hreceipts hcommit (List.mem_singleton_self _) hread rfl rfl
  obtain ⟨y, hy, rfl⟩ := hdb.paired.of_receipt hstored
  rw [hsnapshot.employees] at hemployee
  rw [← Database.id_of_receiptRow hread]
  refine settled_of_focus hdb.paired hy (by simp [ReceiptCommandService.corrected,
    Receipt.updateData]) (by simp) (by simp [ReceiptCommandService.correctedEvent,
    ReceiptCommandService.employeeEvent]) ?_
  rw [updated_receipt (by rfl) (by rfl)]
  exact .corrected hemployee hpermission hversion heditable

include hsnapshot hdb hreceipts hcommit in
theorem settled_decide {session : Session} {receiptId : Long} {expectedVersion : ℤ}
    {decision : ReviewDecision} {note : Option JString} {now : Instant} {result : Receipt}
    (h : ReceiptCommandService.decide snapshot session receiptId expectedVersion decision note
      now = .ok (result, changes)) :
    db.Settled employees (.decide session receiptId expectedVersion decision note now) changes := by
  obtain ⟨employee, receipt, hemployee, hread, hpermission, hversion, heditable, happroval, -,
    rfl⟩ := ReceiptCommandService.decide_eq_ok h
  have hstored := stored_receipt hreceipts hcommit (List.mem_singleton_self _) hread rfl rfl
  obtain ⟨y, hy, rfl⟩ := hdb.paired.of_receipt hstored
  rw [hsnapshot.employees] at hemployee
  rw [← Database.id_of_receiptRow hread]
  refine settled_of_focus hdb.paired hy (by simp [Receipt.changeStatus]) (by simp)
    (by simp [ReceiptCommandService.decidedEvent, ReceiptCommandService.employeeEvent]) ?_
  rw [updated_receipt (by rfl) (by rfl)]
  exact .decided hemployee hpermission hversion heditable happroval

end Operations

end ReceiptReview
