import ReceiptReview.Lifecycle.Refinement

/-!
# Runs of the database refine the cases

By induction over a run, every snapshot holds only cases of the runs, each with
its own part of the audit log (`Run.refines`).  The invariants of the cases are
then invariants of the system, and a case that is stored at one moment is stored
at every later moment after some of its steps (`Run.evolves`).
-/

namespace ReceiptReview

open Java Store ReceiptCase

variable {P : Platform} {employees : Table Employee} {snapshot db db' : Database}
variable {operation : Operation} {reply : Reply} {changes : Database.Changes}
variable {x x' : ReceiptCase} {trace earlier : List Commit}

theorem replyWith_eq_ok {α : Type} {f : α → Reply}
    {result : Except Failure (α × Database.Changes)} :
    replyWith f result = .ok (reply, changes) ↔
      ∃ a, result = .ok (a, changes) ∧ reply = f a := by
  unfold replyWith
  rw [Outcome.map_eq_ok]
  constructor
  · intro hreply
    obtain ⟨⟨a, changes'⟩, hresult, hpair⟩ := hreply
    obtain ⟨rfl, rfl⟩ := Prod.mk.inj hpair
    exact ⟨a, hresult, rfl⟩
  · intro hreply
    obtain ⟨a, hresult, rfl⟩ := hreply
    exact ⟨(a, changes), hresult, rfl⟩

/-! ## One commit -/

/-- A commit without an intake takes steps of stored cases. -/
theorem settled_of_body (hsnapshot : snapshot.Refines P employees) (hdb : db.Refines P employees)
    (hreceipts : snapshot.receipts.Precedes db.receipts)
    (hjobs : snapshot.jobs.Precedes db.jobs)
    (hbody : operation.body snapshot = .ok (reply, changes)) (hcreated : changes.created = none)
    (hcommit : db.commit P changes = .ok db') : db.Settled employees operation changes := by
  cases operation <;> simp only [Operation.body, replyWith_eq_ok] at hbody <;>
    obtain ⟨result, hresult, -⟩ := hbody
  case createQueued =>
      cases hresult
      exact absurd hcreated (by simp)
  case claimAvailable => exact settled_claimAvailable hdb hjobs hcommit hresult
  case release => exact settled_release hdb hjobs hcommit hresult
  case recoverExpired => exact settled_recoverExpired hdb hjobs hcommit hresult
  case completeQualityRejection =>
      exact settled_completeQualityRejection hdb hreceipts hjobs hcommit hresult
  case completeExtraction => exact settled_completeExtraction hdb hreceipts hjobs hcommit hresult
  case scheduleRetry => exact settled_scheduleRetry hdb hjobs hcommit hresult
  case failExtraction => exact settled_failExtraction hdb hreceipts hjobs hcommit hresult
  case markDuplicate => exact settled_markDuplicate hsnapshot hdb hreceipts hjobs hcommit hresult
  case correctFields => exact settled_correctFields hsnapshot hdb hreceipts hcommit hresult
  case decide => exact settled_decide hsnapshot hdb hreceipts hcommit hresult

/-- A commit with an intake is the commit of `createQueued`. -/
theorem created_of_body {new : Database.Creation}
    (hbody : operation.body snapshot = .ok (reply, changes))
    (hcreated : changes.created = some new) :
    ∃ receipt imageStorageKey idempotencyKey auditEvents receiptId jobId createdAt recordedAt,
      operation = .createQueued receipt imageStorageKey idempotencyKey auditEvents receiptId jobId
        createdAt recordedAt ∧
      ReceiptPersistenceService.createQueued receipt imageStorageKey idempotencyKey auditEvents
        receiptId jobId createdAt recordedAt = .ok ((new.receipt, new.job), changes) := by
  cases operation <;> simp only [Operation.body, replyWith_eq_ok] at hbody <;>
    obtain ⟨result, hresult, -⟩ := hbody
  case createQueued =>
      cases hresult
      cases hcreated
      exact ⟨_, _, _, _, _, _, _, _, rfl, rfl⟩
  -- no other transaction inserts a receipt
  all_goals exfalso
  case claimAvailable =>
      obtain ⟨_, _, _, _, rfl⟩ := ReceiptJobClaimService.claimAvailable_eq_ok hresult
      exact absurd hcreated (by simp)
  case release =>
      obtain ⟨_, _, _, _, rfl⟩ := ReceiptJobClaimService.release_eq_ok hresult
      exact absurd hcreated (by simp)
  case recoverExpired =>
      obtain ⟨_, _, _, _, rfl⟩ := ExpiredJobRecoveryService.recoverExpired_eq_ok hresult
      exact absurd hcreated (by simp)
  case completeQualityRejection =>
      obtain ⟨_, _, _, _, _, _, _, rfl⟩ :=
        ReceiptExtractionLifecycleService.completeQualityRejection_eq_ok hresult
      exact absurd hcreated (by simp)
  case completeExtraction =>
      obtain ⟨_, _, _, _, _, _, _, _, _, rfl⟩ :=
        ReceiptExtractionLifecycleService.completeExtraction_eq_ok hresult
      exact absurd hcreated (by simp)
  case scheduleRetry =>
      obtain ⟨_, _, _, _, _, _, _, _, rfl⟩ :=
        ReceiptExtractionLifecycleService.scheduleRetry_eq_ok hresult
      exact absurd hcreated (by simp)
  case failExtraction =>
      obtain ⟨_, _, _, _, _, _, _, rfl⟩ :=
        ReceiptExtractionLifecycleService.failExtraction_eq_ok hresult
      exact absurd hcreated (by simp)
  case markDuplicate =>
      obtain ⟨_, _, _, _, _, _, hcase⟩ := ReceiptPersistenceService.markDuplicate_eq_ok hresult
      rcases hcase with ⟨-, rfl⟩ | ⟨-, -, rfl⟩ | ⟨-, -, rfl⟩ | ⟨-, _, _, -, -, rfl⟩ <;>
        exact absurd hcreated (by simp)
  case correctFields =>
      obtain ⟨_, _, _, _, _, _, _, _, rfl⟩ := ReceiptCommandService.correctFields_eq_ok hresult
      exact absurd hcreated (by simp)
  case decide =>
      obtain ⟨_, _, _, _, _, _, _, _, _, rfl⟩ := ReceiptCommandService.decide_eq_ok hresult
      exact absurd hcreated (by simp)

theorem ReceiptCase.Settles.sameReceipt (h : x.Settles employees operation changes) :
    SameReceipt x.receipt (x.updated changes).receipt := by
  rcases h with ⟨hsame, -⟩ | hstep
  · rw [hsame]
    exact ⟨rfl, rfl, rfl, rfl⟩
  · exact hstep.sameReceipt

theorem ReceiptCase.Settles.sameJob (h : x.Settles employees operation changes) :
    SameJob x.job (x.updated changes).job := by
  rcases h with ⟨hsame, -⟩ | hstep
  · rw [hsame]
    exact ⟨rfl, rfl⟩
  · exact hstep.sameJob

theorem receiptRow_written (hcreated : changes.created = none)
    (hcommit : db.commit P changes = .ok db') (id : Long) :
    db'.receiptRow id = (db.receiptRow id).map (Table.updated changes.receipts) := by
  obtain ⟨receipts, jobs, hreceipts, -, rfl⟩ := Database.commit_written hcreated hcommit
  exact Table.find?_flush hreceipts id

theorem findJob_written (hcreated : changes.created = none)
    (hcommit : db.commit P changes = .ok db') (id : Long) :
    db'.findJob id = (db.findJob id).map (Table.updated changes.jobs) := by
  obtain ⟨receipts, jobs, -, hjobs, rfl⟩ := Database.commit_written hcreated hcommit
  exact Table.find?_flush hjobs id

/-- A stored case is stored again as its update. -/
theorem Database.Settled.hasCase_updated (h : db.Settled employees operation changes)
    (hcreated : changes.created = none) (hcommit : db.commit P changes = .ok db')
    (hx : db.HasCase x) : db'.HasCase (x.updated changes) where
  receipt := by
    rw [(h.settles hx).sameReceipt.id, receiptRow_written hcreated hcommit, hx.receipt]
    rfl
  job := by
    rw [(h.settles hx).sameJob.id, findJob_written hcreated hcommit, hx.job]
    rfl
  receiptId := by
    rw [(h.settles hx).sameJob.receiptId, hx.receiptId, (h.settles hx).sameReceipt.id]

/-- A case that is stored after a commit is the update of a stored case. -/
theorem Database.Settled.exists_hasCase (hdb : db.Paired)
    (h : db.Settled employees operation changes) (hcreated : changes.created = none)
    (hcommit : db.commit P changes = .ok db') (hx' : db'.HasCase x') :
    ∃ x, db.HasCase x ∧ x' = x.updated changes := by
  have hreceipt := hx'.receipt
  rw [receiptRow_written hcreated hcommit] at hreceipt
  obtain ⟨receipt, hstored, hupdated⟩ := Option.map_eq_some_iff.mp hreceipt
  obtain ⟨x, hx, rfl⟩ := hdb.of_receipt hstored
  have hjob := hx'.job
  rw [findJob_written hcreated hcommit] at hjob
  obtain ⟨job, hstoredJob, hupdatedJob⟩ := Option.map_eq_some_iff.mp hjob
  obtain ⟨y, hy, rfl⟩ := hdb.of_job hstoredJob
  have hids : y.receipt.id = x.receipt.id := by
    rw [← hy.receiptId, ← (h.settles hy).sameJob.receiptId]
    show (Table.updated changes.jobs y.job).receiptId = _
    rw [hupdatedJob, hx'.receiptId, ← hupdated]
    exact (h.settles hx).sameReceipt.id
  obtain rfl := hdb.unique hy hx hids
  refine ⟨y, hy, ?_⟩
  unfold ReceiptCase.updated
  rw [hupdated, hupdatedJob]

theorem Database.Paired.written (hdb : db.Paired) (h : db.Settled employees operation changes)
    (hcreated : changes.created = none) (hcommit : db.commit P changes = .ok db') :
    db'.Paired where
  of_receipt := by
    intro id receipt' hreceipt'
    rw [receiptRow_written hcreated hcommit] at hreceipt'
    obtain ⟨receipt, hreceipt, rfl⟩ := Option.map_eq_some_iff.mp hreceipt'
    obtain ⟨x, hx, rfl⟩ := hdb.of_receipt hreceipt
    exact ⟨x.updated changes, h.hasCase_updated hcreated hcommit hx, rfl⟩
  of_job := by
    intro id job' hjob'
    rw [findJob_written hcreated hcommit] at hjob'
    obtain ⟨job, hjob, rfl⟩ := Option.map_eq_some_iff.mp hjob'
    obtain ⟨x, hx, rfl⟩ := hdb.of_job hjob
    exact ⟨x.updated changes, h.hasCase_updated hcreated hcommit hx, rfl⟩
  unique := by
    intro x' y' hx' hy' hid
    obtain ⟨x, hx, rfl⟩ := h.exists_hasCase hdb hcreated hcommit hx'
    obtain ⟨y, hy, rfl⟩ := h.exists_hasCase hdb hcreated hcommit hy'
    rw [(h.settles hx).sameReceipt.id, (h.settles hy).sameReceipt.id] at hid
    rw [hdb.unique hx hy hid]

/-- A commit without an intake keeps the refinement. -/
theorem Database.Refines.written (hdb : db.Refines P employees)
    (hpermitted : operation.Permitted P employees) (h : db.Settled employees operation changes)
    (hcreated : changes.created = none) (hcommit : db.commit P changes = .ok db') :
    db'.Refines P employees where
  paired := hdb.paired.written h hcreated hcommit
  reaches := by
    intro x' hx'
    obtain ⟨x, hx, rfl⟩ := h.exists_hasCase hdb.paired hcreated hcommit hx'
    rw [(h.settles hx).sameReceipt.id, Database.auditEvents_commit hcommit, eventsFor_append]
    rcases h.settles hx with ⟨hsame, hquiet⟩ | hstep
    · rw [hsame, hquiet, List.append_nil]
      exact hdb.reaches hx
    · exact .step (hdb.reaches hx) hpermitted hstep
  audited := by
    intro event hmem
    rw [Database.auditEvents_commit hcommit, List.mem_append] at hmem
    obtain ⟨x, hx, hid⟩ : ∃ x, db.HasCase x ∧ x.receipt.id = event.receiptId := by
      rcases hmem with hmem | hmem
      · exact hdb.audited event hmem
      · exact h.audited event hmem
    exact ⟨x.updated changes, h.hasCase_updated hcreated hcommit hx,
      (h.settles hx).sameReceipt.id.trans hid⟩
  employees := by rw [Database.employees_commit hcommit, hdb.employees]

section Intake

variable {receipt : Receipt} {imageStorageKey : JString} {idempotencyKey : Option JString}
variable {auditEvents : List AuditEvent} {receiptId jobId : Long} {createdAt recordedAt : Instant}
variable {pair : Receipt × ReceiptExtractionJob}
variable (hcreate : ReceiptPersistenceService.createQueued receipt imageStorageKey idempotencyKey
  auditEvents receiptId jobId createdAt recordedAt = .ok (pair, changes))
variable (hcommit : db.commit P changes = .ok db')

include hcreate in
/-- An intake writes no stored job. -/
theorem jobs_created : changes.jobs = [] := by
  cases hcreate
  rfl

include hcreate in
/-- The events of an intake are about the new receipt. -/
theorem events_created : changes.events = auditEvents.map (·.attachTo receiptId) := by
  cases hcreate
  rfl

include hcreate hcommit

/-- An intake adds one receipt under a new key. -/
theorem receiptRow_created (id : Long) :
    db.receiptRow receiptId = none ∧ db'.receiptRow id =
      if id = receiptId then some (intake receipt imageStorageKey receiptId jobId createdAt).receipt
      else db.receiptRow id := by
  cases hcreate
  obtain ⟨-, receipts, jobs, hreceipts, -, rfl⟩ := Database.commit_created hcommit
  exact ⟨(Table.find?_insert_self hreceipts).1, Table.find?_insert hreceipts id⟩

/-- An intake adds one job under a new key. -/
theorem findJob_created (id : Long) :
    db.findJob jobId = none ∧ db'.findJob id =
      if id = jobId then some (intake receipt imageStorageKey receiptId jobId createdAt).job
      else db.findJob id := by
  cases hcreate
  obtain ⟨-, receipts, jobs, -, hjobs, rfl⟩ := Database.commit_created hcommit
  exact ⟨(Table.find?_insert_self hjobs).1, Table.find?_insert hjobs id⟩

/-- An intake adds one case and keeps the others. -/
theorem hasCase_created (hdb : db.Paired) :
    db'.HasCase x ↔ x = intake receipt imageStorageKey receiptId jobId createdAt ∨
      db.HasCase x := by
  have hreceipts := receiptRow_created hcreate hcommit
  have hjobs := findJob_created hcreate hcommit
  constructor
  · intro hcase
    obtain ⟨hreceipt, hjob, hlink⟩ := hcase
    rw [(hreceipts _).2] at hreceipt
    rw [(hjobs _).2] at hjob
    split at hreceipt <;> split at hjob
    · left
      obtain ⟨receipt', job'⟩ := x
      cases hreceipt
      cases hjob
      rfl
    · -- a stored job belongs to a stored receipt, not to the new one
      rename_i hid _
      obtain ⟨y, hy, hyjob⟩ := hdb.of_job hjob
      have hstored := hy.receipt
      rw [← hy.receiptId, hyjob, hlink, hid, (hreceipts 0).1] at hstored
      exact absurd hstored (by simp)
    · rename_i hid _
      rw [← hlink, ← Option.some.inj hjob] at hid
      exact absurd rfl hid
    · exact .inr ⟨hreceipt, hjob, hlink⟩
  · intro hor
    rcases hor with rfl | ⟨hreceipt, hjob, hlink⟩
    · exact ⟨by rw [(hreceipts _).2]; simp [intake], by rw [(hjobs _).2]; simp [intake], rfl⟩
    · refine ⟨?_, ?_, hlink⟩
      · rw [(hreceipts _).2, if_neg, hreceipt]
        intro hid
        rw [hid, (hreceipts 0).1] at hreceipt
        exact absurd hreceipt (by simp)
      · rw [(hjobs _).2, if_neg, hjob]
        intro hid
        rw [hid, (hjobs 0).1] at hjob
        exact absurd hjob (by simp)

/-- The key of the new receipt is not in use. -/
theorem ne_of_hasCase_created (hx : db.HasCase x) : x.receipt.id ≠ receiptId := by
  intro hid
  have hstored := hx.receipt
  rw [hid, (receiptRow_created hcreate hcommit 0).1] at hstored
  exact absurd hstored (by simp)

theorem Database.Paired.created (hdb : db.Paired) : db'.Paired where
  of_receipt := by
    intro id found hfound
    rw [(receiptRow_created hcreate hcommit id).2] at hfound
    split at hfound
    · exact ⟨_, (hasCase_created hcreate hcommit hdb).mpr (.inl rfl), Option.some.inj hfound⟩
    · obtain ⟨x, hx, hxreceipt⟩ := hdb.of_receipt hfound
      exact ⟨x, (hasCase_created hcreate hcommit hdb).mpr (.inr hx), hxreceipt⟩
  of_job := by
    intro id found hfound
    rw [(findJob_created hcreate hcommit id).2] at hfound
    split at hfound
    · exact ⟨_, (hasCase_created hcreate hcommit hdb).mpr (.inl rfl), Option.some.inj hfound⟩
    · obtain ⟨x, hx, hxjob⟩ := hdb.of_job hfound
      exact ⟨x, (hasCase_created hcreate hcommit hdb).mpr (.inr hx), hxjob⟩
  unique := by
    intro x y hx hy hid
    rcases (hasCase_created hcreate hcommit hdb).mp hx with rfl | hx <;>
      rcases (hasCase_created hcreate hcommit hdb).mp hy with rfl | hy
    · rfl
    · exact absurd hid.symm (ne_of_hasCase_created hcreate hcommit hy)
    · exact absurd hid (ne_of_hasCase_created hcreate hcommit hx)
    · exact hdb.unique hx hy hid

/-- An intake keeps the refinement. -/
theorem Database.Refines.created (hdb : db.Refines P employees)
    (hpermitted : (Operation.createQueued receipt imageStorageKey idempotencyKey auditEvents
      receiptId jobId createdAt recordedAt).Permitted P employees) : db'.Refines P employees := by
  have hcase : ∀ {x}, db'.HasCase x ↔
      x = intake receipt imageStorageKey receiptId jobId createdAt ∨ db.HasCase x :=
    fun {x} => hasCase_created hcreate hcommit hdb.paired
  have hother : ∀ {x}, db.HasCase x → x.receipt.id ≠ receiptId :=
    fun hx => ne_of_hasCase_created hcreate hcommit hx
  have hevents := events_created hcreate
  have habout : ∀ event ∈ changes.events, event.receiptId = receiptId := by
    rw [hevents]
    intro event hmem
    obtain ⟨event, -, rfl⟩ := List.mem_map.mp hmem
    rfl
  refine ⟨hdb.paired.created hcreate hcommit, ?_, ?_, ?_⟩
  · intro x hx
    rw [Database.auditEvents_commit hcommit, eventsFor_append]
    rcases hcase.mp hx with rfl | hx
    · -- the log of the new receipt is that of its intake
      have hempty : eventsFor receiptId db.auditEvents = [] := by
        refine eventsFor_eq_nil fun event hmem hid => ?_
        obtain ⟨x, hx, hxid⟩ := hdb.audited event hmem
        exact hother hx (hxid.trans hid)
      show Reaches P employees _ (eventsFor receiptId _ ++ eventsFor receiptId _)
      rw [hempty, eventsFor_eq_self habout, hevents, List.nil_append]
      exact .created hpermitted
    · have hempty : eventsFor x.receipt.id changes.events = [] :=
        eventsFor_eq_nil fun event hmem hid => hother hx (hid.symm.trans (habout event hmem))
      rw [hempty, List.append_nil]
      exact hdb.reaches hx
  · intro event hmem
    rw [Database.auditEvents_commit hcommit, List.mem_append] at hmem
    rcases hmem with hmem | hmem
    · obtain ⟨x, hx, hid⟩ := hdb.audited event hmem
      exact ⟨x, hcase.mpr (.inr hx), hid⟩
    · exact ⟨_, hcase.mpr (.inl rfl), (habout event hmem).symm⟩
  · rw [Database.employees_commit hcommit, hdb.employees]

end Intake

/-! ## Runs -/

theorem Database.initial_refines (P : Platform) (employees : Table Employee) :
    (Database.initial employees).Refines P employees where
  paired := {
    of_receipt := fun h => absurd h (by simp [initial, receiptRow])
    of_job := fun h => absurd h (by simp [initial, findJob])
    unique := fun h => absurd h.receipt (by simp [initial, receiptRow]) }
  reaches h := absurd h.receipt (by simp [initial, receiptRow])
  audited := by simp [initial]
  employees := rfl

/-- One commit keeps the refinement. -/
theorem Database.Refines.commit (hsnapshot : snapshot.Refines P employees)
    (hdb : db.Refines P employees) (hreceipts : snapshot.receipts.Precedes db.receipts)
    (hjobs : snapshot.jobs.Precedes db.jobs) (hpermitted : operation.Permitted P employees)
    (hbody : operation.body snapshot = .ok (reply, changes))
    (hcommit : db.commit P changes = .ok db') : db'.Refines P employees := by
  cases hcreated : changes.created with
  | none =>
      exact hdb.written hpermitted
        (settled_of_body hsnapshot hdb hreceipts hjobs hbody hcreated hcommit) hcreated hcommit
  | some new =>
      obtain ⟨_, _, _, _, _, _, _, _, rfl, hcreate⟩ := created_of_body hbody hcreated
      exact hdb.created hcreate hcommit hpermitted

/-- Every snapshot of a run refines the cases and precedes the current database. -/
theorem Run.refines (h : Run P employees trace) : ∀ {db}, db ∈ snapshots employees trace →
    db.Refines P employees ∧ db.receipts.Precedes (current employees trace).receipts ∧
      db.jobs.Precedes (current employees trace).jobs := by
  induction h with
  | nil =>
      intro db hdb
      rw [snapshots, List.mem_singleton] at hdb
      subst hdb
      exact ⟨Database.initial_refines P employees, .refl _, .refl _⟩
  | commit hrun hpermitted hsnapshot hbody hcommit ih =>
      obtain ⟨hthen, hreceipts, hjobs⟩ := ih hsnapshot
      have hnow := (ih (current_mem_snapshots _ _)).1
      have hnext := hthen.commit hnow hreceipts hjobs hpermitted hbody hcommit
      have hprecedes := Database.precedes_commit hcommit
      intro db hdb
      rcases List.mem_cons.mp hdb with rfl | hdb
      · exact ⟨hnext, .refl _, .refl _⟩
      · obtain ⟨hrefines, hreceipts, hjobs⟩ := ih hdb
        exact ⟨hrefines, hreceipts.trans hprecedes.1, hjobs.trans hprecedes.2⟩

theorem Run.current_refines (h : Run P employees trace) :
    (current employees trace).Refines P employees :=
  (h.refines (current_mem_snapshots _ _)).1

/-- A key that is not in use has no events. -/
theorem Database.Refines.eventsFor_eq_nil (h : db.Refines P employees) {id : Long}
    (hfresh : db.receiptRow id = none) : eventsFor id db.auditEvents = [] := by
  refine ReceiptReview.eventsFor_eq_nil fun event hmem hid => ?_
  obtain ⟨x, hx, hxid⟩ := h.audited event hmem
  have hstored := hx.receipt
  rw [hxid, hid, hfresh] at hstored
  exact absurd hstored (by simp)

/-! ## A case along a run -/

/-- The last commit of a run. -/
theorem Run.head {commit : Commit} (h : Run P employees (commit :: trace)) :
    Run P employees trace ∧ commit.before = current employees trace ∧
      commit.operation.Permitted P employees ∧
      commit.before.commit P commit.changes = .ok commit.after ∧
      ∃ snapshot ∈ snapshots employees trace,
        commit.operation.body snapshot = .ok (commit.reply, commit.changes) := by
  cases h with
  | commit hrun hpermitted hsnapshot hbody hcommit =>
      exact ⟨hrun, rfl, hpermitted, hcommit, _, hsnapshot, hbody⟩

theorem Run.settled {commit : Commit} (h : Run P employees (commit :: trace))
    (hcreated : commit.changes.created = none) :
    (current employees trace).Settled employees commit.operation commit.changes := by
  obtain ⟨hrun, hbefore, -, hcommit, snapshot, hsnapshot, hbody⟩ := h.head
  rw [hbefore] at hcommit
  obtain ⟨hthen, hreceipts, hjobs⟩ := hrun.refines hsnapshot
  exact settled_of_body hthen hrun.current_refines hreceipts hjobs hbody hcreated hcommit

/-- The commit leaves the case alone, or takes it one step. -/
def Commit.Moves (employees : Table Employee) (commit : Commit) (x x' : ReceiptCase) : Prop :=
  x' = x ∧ eventsFor x.receipt.id commit.changes.events = [] ∨
    Step employees commit.operation x (eventsFor x.receipt.id commit.changes.events) x'

/-- The commit creates the case. -/
def Commit.Creates (commit : Commit) (x : ReceiptCase) : Prop :=
  ∃ receipt imageStorageKey idempotencyKey auditEvents receiptId jobId createdAt recordedAt,
    commit.operation = .createQueued receipt imageStorageKey idempotencyKey auditEvents receiptId
      jobId createdAt recordedAt ∧
    x = intake receipt imageStorageKey receiptId jobId createdAt ∧
    commit.changes.events = auditEvents.map (·.attachTo receiptId) ∧
    commit.before.receiptRow receiptId = none

theorem Commit.Moves.sameReceipt {commit : Commit} (h : commit.Moves employees x x') :
    SameReceipt x.receipt x'.receipt := by
  rcases h with ⟨rfl, -⟩ | hstep
  · exact ⟨rfl, rfl, rfl, rfl⟩
  · exact hstep.sameReceipt

theorem Commit.Moves.sameJob {commit : Commit} (h : commit.Moves employees x x') :
    SameJob x.job x'.job := by
  rcases h with ⟨rfl, -⟩ | hstep
  · exact ⟨rfl, rfl⟩
  · exact hstep.sameJob

/-- A stored case is not touched by a commit, or is written as its update and
takes one step. -/
theorem Run.kept_or_updated {commit : Commit} (h : Run P employees (commit :: trace))
    (hx : (current employees trace).HasCase x) :
    (commit.after.HasCase x ∧ eventsFor x.receipt.id commit.changes.events = [] ∧
      ∀ job ∈ commit.changes.jobs, job.id ≠ x.job.id) ∨
    (commit.after.HasCase (x.updated commit.changes) ∧
      Step employees commit.operation x (eventsFor x.receipt.id commit.changes.events)
        (x.updated commit.changes)) := by
  obtain ⟨hrun, hbefore, -, hcommit, snapshot, hsnapshot, hbody⟩ := h.head
  rw [hbefore] at hcommit
  cases hcreated : commit.changes.created with
  | none =>
      have hsettled := h.settled hcreated
      have hafter := hsettled.hasCase_updated hcreated hcommit hx
      rcases hsettled.settles hx with ⟨hsame, hquiet⟩ | hstep
      · left
        refine ⟨by rwa [hsame] at hafter, hquiet, fun job hjob hid => ?_⟩
        -- a written job would have a larger version
        rcases Table.updated_cases commit.changes.jobs x.job with ⟨-, hother⟩ | ⟨_, _, _, hupdated⟩
        · exact hother job hjob hid
        · have hjobSame : Table.updated commit.changes.jobs x.job = x.job :=
            congrArg ReceiptCase.job hsame
          rw [hupdated] at hjobSame
          have := congrArg ReceiptExtractionJob.version hjobSame
          exact absurd this (by simp)
      · exact .inr ⟨hafter, hstep⟩
  | some new =>
      obtain ⟨_, _, _, _, receiptId, _, _, _, hoperation, hcreate⟩ :=
        created_of_body hbody hcreated
      refine .inl ⟨(hasCase_created hcreate hcommit hrun.current_refines.paired).mpr (.inr hx),
        eventsFor_eq_nil ?_, ?_⟩
      · -- the events of an intake are about its own receipt
        intro event hmem hid
        rw [events_created hcreate] at hmem
        obtain ⟨event, -, rfl⟩ := List.mem_map.mp hmem
        exact ne_of_hasCase_created hcreate hcommit hx hid.symm
      · rw [jobs_created hcreate]
        simp

/-- A stored case moves on with every commit. -/
theorem Run.exists_moved {commit : Commit} (h : Run P employees (commit :: trace))
    (hx : (current employees trace).HasCase x) :
    ∃ x', commit.after.HasCase x' ∧ commit.Moves employees x x' := by
  rcases h.kept_or_updated hx with ⟨hafter, hquiet, -⟩ | ⟨hafter, hstep⟩
  · exact ⟨x, hafter, .inl ⟨rfl, hquiet⟩⟩
  · exact ⟨x.updated commit.changes, hafter, .inr hstep⟩

/-- A stored case was created by the last commit, or has moved with it. -/
theorem Run.created_or_moved {commit : Commit} (h : Run P employees (commit :: trace))
    (hx' : commit.after.HasCase x') :
    commit.Creates x' ∨ ∃ x, (current employees trace).HasCase x ∧ commit.Moves employees x x' := by
  obtain ⟨hrun, hbefore, -, hcommit, snapshot, hsnapshot, hbody⟩ := h.head
  cases hcreated : commit.changes.created with
  | none =>
      rw [hbefore] at hcommit
      have hsettled := h.settled hcreated
      obtain ⟨x, hx, rfl⟩ :=
        hsettled.exists_hasCase hrun.current_refines.paired hcreated hcommit hx'
      exact .inr ⟨x, hx, hsettled.settles hx⟩
  | some new =>
      obtain ⟨_, _, _, _, _, _, _, _, hoperation, hcreate⟩ := created_of_body hbody hcreated
      have hpaired : commit.before.Paired := hbefore ▸ hrun.current_refines.paired
      rcases (hasCase_created hcreate hcommit hpaired).mp hx' with rfl | hx
      · exact .inl ⟨_, _, _, _, _, _, _, _, hoperation, rfl, events_created hcreate,
          (receiptRow_created hcreate hcommit 0).1⟩
      · have hnow : (current employees trace).HasCase x' := hbefore ▸ hx
        obtain ⟨moved, hmoved, hmoves⟩ := h.exists_moved hnow
        have hpaired' : commit.after.Paired := h.current_refines.paired
        obtain rfl := hpaired'.unique hmoved hx' hmoves.sameReceipt.id
        exact .inr ⟨moved, hnow, hmoves⟩

/-- The receipt that an operation of an employee changes. -/
def Operation.edits : Operation → Option Long
  | correctFields _ receiptId .. | decide _ receiptId .. => some receiptId
  | _ => none

/-- Once the extraction has ended, only a duplicate and the commands take a step: the one
flags the job, the others leave it alone. -/
theorem ReceiptCase.Step.of_ended {x x' : ReceiptCase} {events : List AuditEvent}
    (h : Step employees operation x events x') (hended : ¬ x.job.status.isPending) :
    (∃ now today, operation = .markDuplicate x.receipt.id now today ∧
      x'.job = (x.job.markDuplicate now).flushed) ∨
    operation.edits = some x.receipt.id ∧ x'.job = x.job := by
  have hnotOwned : ∀ {workerId claimToken : Option JString},
      ¬ x.job.isOwnedBy workerId claimToken := by
    intro workerId claimToken howned
    rw [(ReceiptExtractionJob.isOwnedBy_iff.mp howned).1] at hended
    exact hended rfl
  cases h with
  | claimed hclaim =>
      rcases (ReceiptExtractionJob.claim_eq_ok hclaim).1 with hwaiting | hwaiting <;>
        rw [hwaiting] at hended <;> exact absurd rfl hended
  | recovered hrecover =>
      rw [(ReceiptExtractionJob.recoverExpiredLease_eq_ok hrecover).1] at hended
      exact absurd rfl hended
  -- what a worker reports or hands back, it owns
  | released _ hrelease =>
      exact absurd (ReceiptExtractionJob.releaseClaim_eq_ok hrelease).1 hnotOwned
  | qualityRejected _ _ hcomplete | extracted _ _ hcomplete =>
      exact absurd (ReceiptExtractionJob.complete_eq_ok hcomplete).1 hnotOwned
  | retryScheduled _ _ hretry =>
      exact absurd (ReceiptExtractionJob.scheduleRetry_eq_ok hretry).1 hnotOwned
  | failed _ _ hfail => exact absurd (ReceiptExtractionJob.fail_eq_ok hfail).1 hnotOwned
  | duplicateDeferred | duplicateMarked => exact .inl ⟨_, _, rfl, rfl⟩
  | corrected | decided => exact .inr ⟨rfl, rfl⟩

theorem events_of_edits (hbody : operation.body snapshot = .ok (reply, changes)) {id : Long}
    (hedits : operation.edits = some id) :
    changes.created = none ∧ ∃ event, changes.events = [event] ∧ event.receiptId = id := by
  cases operation <;> cases hedits <;> simp only [Operation.body, replyWith_eq_ok] at hbody <;>
    obtain ⟨result, hresult, -⟩ := hbody
  case correctFields =>
      obtain ⟨employee, row, -, hrow, -, -, -, -, rfl⟩ :=
        ReceiptCommandService.correctFields_eq_ok hresult
      have hid : row.id = _ := Database.id_of_receiptRow hrow
      exact ⟨rfl, _, rfl, hid⟩
  case decide =>
      obtain ⟨employee, row, -, hrow, -, -, -, -, -, rfl⟩ :=
        ReceiptCommandService.decide_eq_ok hresult
      exact ⟨rfl, _, rfl, Database.id_of_receiptRow hrow⟩

/-- A committed operation of an employee takes the case of its receipt one step. -/
theorem Run.step_of_edits {commit : Commit} (h : Run P employees (commit :: trace)) {id : Long}
    (hedits : commit.operation.edits = some id) :
    ∃ x x', (current employees trace).HasCase x ∧ x.receipt.id = id ∧ commit.after.HasCase x' ∧
      Step employees commit.operation x (eventsFor x.receipt.id commit.changes.events) x' := by
  obtain ⟨-, -, -, -, snapshot, -, hbody⟩ := h.head
  obtain ⟨hcreated, event, hevents, hid⟩ := events_of_edits hbody hedits
  obtain ⟨x, hx, hxid⟩ := (h.settled hcreated).audited event (by simp [hevents])
  rcases h.kept_or_updated hx with ⟨-, hquiet, -⟩ | ⟨hafter, hstep⟩
  · -- the operation has recorded an event for the receipt
    rw [hevents, eventsFor_eq_self (by simp [hxid])] at hquiet
    exact absurd hquiet (by simp)
  · exact ⟨x, _, hx, hxid.trans hid, hafter, hstep⟩

/-- Some steps of a case. -/
inductive ReceiptCase.Evolves (P : Platform) (employees : Table Employee) :
    ReceiptCase → ReceiptCase → Prop
  | refl {x : ReceiptCase} : Evolves P employees x x
  | step {x y z : ReceiptCase} {operation : Operation} {events : List AuditEvent} :
      Evolves P employees x y → operation.Permitted P employees →
      Step employees operation y events z → Evolves P employees x z

/-- A case stored at one moment is stored at every later moment, after some steps. -/
theorem Run.evolves (h : Run P employees trace) (hearlier : earlier <:+ trace)
    (hx : (current employees earlier).HasCase x) :
    ∃ x', (current employees trace).HasCase x' ∧ Evolves P employees x x' := by
  induction trace with
  | nil =>
      rw [List.suffix_nil.mp hearlier] at hx
      exact ⟨x, hx, .refl⟩
  | cons commit trace ih =>
      rcases List.suffix_cons_iff.mp hearlier with rfl | hearlier
      · exact ⟨x, hx, .refl⟩
      · obtain ⟨y, hy, hevolves⟩ := ih h.head.1 hearlier
        obtain ⟨z, hz, hmoves⟩ := h.exists_moved hy
        refine ⟨z, hz, ?_⟩
        rcases hmoves with ⟨rfl, -⟩ | hstep
        · exact hevolves
        · exact .step hevolves h.head.2.2.1 hstep

theorem ReceiptCase.Evolves.sameReceipt (h : Evolves P employees x x') :
    SameReceipt x.receipt x'.receipt := by
  induction h with
  | refl => exact ⟨rfl, rfl, rfl, rfl⟩
  | step _ _ hstep ih => exact ih.trans hstep.sameReceipt

theorem ReceiptCase.Evolves.sameJob (h : Evolves P employees x x') : SameJob x.job x'.job := by
  induction h with
  | refl => exact ⟨rfl, rfl⟩
  | step _ _ hstep ih =>
      exact ⟨hstep.sameJob.id.trans ih.id, hstep.sameJob.receiptId.trans ih.receiptId⟩

/-- A receipt that is stored at one moment is stored at every later one, and its
case has evolved. -/
theorem Run.evolves_of_receipt (h : Run P employees trace) (hearlier : earlier <:+ trace)
    {id : Long} {receipt : Receipt}
    (hreceipt : (current employees earlier).receiptRow id = some receipt) :
    ∃ x x', (current employees earlier).HasCase x ∧ x.receipt = receipt ∧
      (current employees trace).receiptRow id = some x'.receipt ∧ Evolves P employees x x' := by
  obtain ⟨x, hx, rfl⟩ := (h.suffix hearlier).current_refines.paired.of_receipt hreceipt
  obtain ⟨x', hx', hevolves⟩ := h.evolves hearlier hx
  refine ⟨x, x', hx, rfl, ?_, hevolves⟩
  rw [← Database.id_of_receiptRow hreceipt, ← hevolves.sameReceipt.id]
  exact hx'.receipt

/-- Its id, its owner, its company and its image never change. -/
theorem Run.stored_later (h : Run P employees trace) (hearlier : earlier <:+ trace) {id : Long}
    {receipt : Receipt} (hreceipt : (current employees earlier).receiptRow id = some receipt) :
    ∃ receipt', (current employees trace).receiptRow id = some receipt' ∧
      SameReceipt receipt receipt' := by
  obtain ⟨x, x', -, rfl, hreceipt', hevolves⟩ := h.evolves_of_receipt hearlier hreceipt
  exact ⟨x'.receipt, hreceipt', hevolves.sameReceipt⟩

/-! ## Data that reads back as written -/

/-- Whatever was stored of the receipt is read as it was stored. -/
def ReadsBack (trace : List Commit) (id : Long) : Prop :=
  ∀ commit ∈ trace, ∀ row ∈ commit.after.receiptRow id, row.reread = row

instance (trace : List Commit) (id : Long) : Decidable (ReadsBack trace id) := by
  unfold ReadsBack; infer_instance

theorem ReadsBack.suffix {id : Long} (h : ReadsBack trace id) (hearlier : earlier <:+ trace) :
    ReadsBack earlier id :=
  fun commit hmem => h commit (hearlier.subset hmem)

theorem ReadsBack.tail {commit : Commit} {id : Long} (h : ReadsBack (commit :: trace) id) :
    ReadsBack trace id :=
  h.suffix (List.suffix_cons _ _)

theorem ReadsBack.reread {id : Long} (h : ReadsBack trace id)
    (hx : (current employees trace).HasCase x) (hid : x.receipt.id = id) :
    x.receipt.reread = x.receipt := by
  have hrow := hx.receipt
  rw [hid] at hrow
  cases trace with
  | nil => exact absurd hrow (by simp [current, Database.initial, Database.receiptRow])
  | cons commit trace => exact h commit List.mem_cons_self x.receipt hrow

/-- The invariants of the cases hold of every stored case. -/
theorem Run.consistent (h : Run P employees trace) (hx : (current employees trace).HasCase x) :
    x.Consistent :=
  (h.current_refines.reaches hx).consistent

end ReceiptReview
