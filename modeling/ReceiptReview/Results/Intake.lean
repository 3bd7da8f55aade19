import ReceiptReview.Concurrent.Intakes
import ReceiptReview.Concurrent.Schedule

/-!
# Intake

The receipts of a company converge on one for each image, whoever gets in
between and whether or not the lock works (`intake_converges`).  A call that
throws has changed nothing, and a call that returns a new receipt has stored the
receipt with everything that belongs to it, so no receipt is ever without its
job (`intake_atomic`).

A request that fails after the transaction of its call has committed is the
exception: the release of the lock, or the query for the job of a receipt that
has just been marked.
-/

namespace ReceiptReview

open Java Store ReceiptCase UploadTranscript ReceiptUploadService ReceiptPersistenceService
open ReceiptCommandService

variable {P : Platform} {employees : Table Employee} {ι : Type} {exclusive : Prop}
variable {calls : ι → UploadCall} {base trace : List Commit} {commit : Commit}
variable {operation : Operation} {x x' : ReceiptCase} {events log : List AuditEvent}

/-! ## The rows and the events of a stored receipt -/

theorem decidedAction_ne_uploaded (decision : ReviewDecision) :
    decidedAction decision ≠ .uploaded := by
  cases decision <;> simp [decidedAction]

/-- Only an intake records an `UPLOADED` event. -/
theorem ReceiptCase.Step.not_uploaded (h : Step employees operation x events x') :
    ∀ event ∈ events, event.action ≠ .uploaded := by
  cases h with
  | claimed _ hactions | recovered _ hactions => simp +contextual [hactions]
  | decided => simp [decidedEvent, employeeEvent, decidedAction_ne_uploaded]
  | _ => simp [systemEvent, deferredEvent, duplicateEvent, correctedEvent, employeeEvent]

theorem ReceiptCase.Reaches.uploaded_events (h : Reaches P employees x log) :
    log.countP (fun event => event.action = .uploaded) = 1 := by
  induction h with
  | created hpermitted =>
      obtain ⟨call, contentType, now, -, -, rfl⟩ := hpermitted
      simp [uploadedEvent, AuditEvent.attachTo]
  | @step _ _ _ _ events _ _ hstep ih =>
      have hnone : events.countP (fun event => event.action = .uploaded) = 0 := by
        rw [List.countP_eq_zero]
        simpa using hstep.not_uploaded
      rw [List.countP_append, ih, hnone]

/-- The number of events of one kind that are recorded for a receipt. -/
def Database.eventCount (db : Database) (receiptId : Long) (action : AuditAction) : ℕ :=
  (eventsFor receiptId db.auditEvents).countP fun event => event.action = action

/-- The receipt has one job. -/
def Database.HasOneJob (db : Database) (receiptId : Long) : Prop :=
  ∃ job, db.findJobByReceiptId receiptId = some job ∧
    ∀ other ∈ db.jobs.rows, other.receiptId = receiptId → other = job

/-- Every receipt is stored with everything that belongs to it. -/
structure Database.Complete (db : Database) : Prop where
  jobs : ∀ id receipt, db.receiptRow id = some receipt → db.HasOneJob id
  uploaded : ∀ id receipt, db.receiptRow id = some receipt → db.eventCount id .uploaded = 1
  records : ∀ record ∈ db.idempotencyRecords, ∃ receipt,
    db.receiptRow record.receiptId = some receipt ∧ receipt.companyId = record.companyId

theorem Database.Paired.hasOneJob {db : Database} (h : db.Paired) (hx : db.HasCase x) :
    db.HasOneJob x.receipt.id := by
  refine ⟨x.job, h.findJobByReceiptId hx, fun other hmem hid => ?_⟩
  obtain ⟨y, hy, rfl⟩ := h.of_job (Table.find?_of_mem hmem)
  rw [h.unique hy hx (hy.receiptId.symm.trans hid)]

theorem Run.complete (h : Run P employees trace) : (current employees trace).Complete where
  jobs id receipt hreceipt := by
    have hpaired := h.current_refines.paired
    obtain ⟨x, hx, rfl⟩ := hpaired.of_receipt hreceipt
    rw [← Database.id_of_receiptRow hreceipt]
    exact hpaired.hasOneJob hx
  uploaded id receipt hreceipt := by
    obtain ⟨x, hx, rfl⟩ := h.current_refines.paired.of_receipt hreceipt
    rw [← Database.id_of_receiptRow hreceipt]
    exact (h.current_refines.reaches hx).uploaded_events
  records record hmem := by
    rw [h.catalogued.records, List.mem_filterMap] at hmem
    obtain ⟨new, hnew, hrecord⟩ := hmem
    rw [List.mem_reverse] at hnew
    obtain ⟨hid, hcompany, -⟩ := (h.catalogued.wellFormed new hnew).record record hrecord
    obtain ⟨receipt, hreceipt, hsame⟩ := h.catalogued.stored new hnew
    exact ⟨receipt, hid ▸ hreceipt, hsame.companyId.trans hcompany.symm⟩

/-- The flag of the job tells how many duplicates are recorded. -/
theorem Run.duplicate_events (h : Run P employees trace) {id : Long} {receipt : Receipt}
    {job : ReceiptExtractionJob}
    (hreceipt : (current employees trace).receiptRow id = some receipt)
    (hjob : (current employees trace).findJobByReceiptId id = some job) :
    (current employees trace).eventCount id .duplicateDetected =
      if job.duplicateDetected then 1 else 0 := by
  have hrefines := h.current_refines
  obtain ⟨x, hx, rfl⟩ := hrefines.paired.of_receipt hreceipt
  rw [← Database.id_of_receiptRow hreceipt] at hjob ⊢
  rw [hrefines.paired.findJobByReceiptId hx] at hjob
  cases hjob
  exact (hrefines.reaches hx).duplicate_events

/-! ## Convergence -/

/-- For any uploads beside each other, and whether or not the lock is exclusive:
an image of a company is stored once, a receipt has one job, one call at most
reports to have created it, every other call returns the receipt of its own
image unless it is a replay, and a receipt has one `DUPLICATE_DETECTED` event or
none, as its job is flagged or not. -/
theorem intake_converges [DecidableEq ι] {pool : CallsPool ι} (hbase : Run P employees base)
    (hcalls : CallsRun P employees exclusive calls base pool) :
    (∀ a b receipt receipt',
      (current employees pool.shared.trace).receiptRow a = some receipt →
      (current employees pool.shared.trace).receiptRow b = some receipt' →
      P.textEq receipt.companyId receipt'.companyId = true →
      P.textEq receipt.imageSha256 receipt'.imageSha256 = true → a = b) ∧
    (∀ id receipt, (current employees pool.shared.trace).receiptRow id = some receipt →
      (current employees pool.shared.trace).HasOneJob id) ∧
    (∀ i j result result', pool.Ended i (.ok result) → pool.Ended j (.ok result') →
      result.created = true → result'.created = true →
      result.receipt.id = result'.receipt.id → i = j) ∧
    (∀ i result, pool.Ended i (.ok result) → result.idempotentReplay = false →
      (current employees pool.shared.trace).HoldsImage P (calls i) result.receipt) ∧
    (∀ id receipt job, (current employees pool.shared.trace).receiptRow id = some receipt →
      (current employees pool.shared.trace).findJobByReceiptId id = some job →
      (current employees pool.shared.trace).eventCount id .duplicateDetected =
        if job.duplicateDetected then 1 else 0) := by
  have hrun := hcalls.run hbase
  refine ⟨?_, hrun.complete.jobs, ?_, ?_, ?_⟩
  · intro a b receipt receipt' ha hb hcompany himage
    exact hrun.eq_of_sameImage ha hb hcompany himage
  · -- each of the two calls has stored the receipt, and an id is stored once
    intro i j result result' hi hj hcreated hcreated' hid
    obtain ⟨mine, hmine, -, new, hnew, hreceipt⟩ := hcalls.stored_by hbase hi hcreated
    obtain ⟨theirs, htheirs, -, new', hnew', hreceipt'⟩ := hcalls.stored_by hbase hj hcreated'
    refine hcalls.eq_of_stored hbase (by rw [hmine]; exact List.mem_singleton_self _)
      (by rw [htheirs]; exact List.mem_singleton_self _) hnew hnew' ?_
    rw [hreceipt, hreceipt', hid]
  · intro i result hended hreplay
    exact hcalls.returned_image hbase hended hreplay
  · intro id receipt job hreceipt hjob
    exact hrun.duplicate_events hreceipt hjob

namespace Sample

/-- Uploads of one image under different keys. -/
def racingCalls (i : ℕ) : UploadCall := uploadOf ("key-" ++ toString i) imageA

/-- Both calls hold the lock, and neither finds the image.  The first call stores
it, so the second call violates the unique constraint. -/
def racingActions : List (CallsAction ℕ) :=
  [.start 0, .start 1] ++ goesOn 1 2 7 ++ goesOn 0 1 9 ++ goesOn 1 3 6

def racingPool : CallsPool ℕ := poolAfter platform staff False racingCalls [] racingActions

theorem racingPool_run : CallsRun platform staff False racingCalls [] racingPool := by
  apply callsRun_poolAfter
  simp [racingActions, goesOn, CallsAction.Permitted]

theorem racingPool_created : ∃ first, racingPool.Ended 0 (.ok first) ∧ first.created = true ∧
    first.receipt.id = 1 := by
  have hreturns : racingPool.returns 0
      (fun first => first.created && first.receipt.id == 1) = true :=
    by decide +kernel
  simpa using Pool.ended_of_returns hreturns

theorem racingPool_converged : ∃ second, racingPool.Ended 1 (.ok second) ∧
    second.idempotentReplay = false ∧ second.receipt.id = 1 := by
  have hreturns : racingPool.returns 1
      (fun second => !second.idempotentReplay && second.receipt.id == 1) = true :=
    by decide +kernel
  simpa using Pool.ended_of_returns hreturns

end Sample

open Sample in
/-- Two calls store one image at once: one receipt, marked once. -/
theorem racingPool_converges :
    ∃ second, racingPool.Ended 1 (.ok second) ∧ second.receipt.id = 1 ∧
      (current staff racingPool.shared.trace).HoldsImage platform (racingCalls 1) second.receipt ∧
      (current staff racingPool.shared.trace).HasOneJob 1 ∧
      (current staff racingPool.shared.trace).eventCount 1 .duplicateDetected = 1 := by
  obtain ⟨second, hended, hreplay, hid⟩ := racingPool_converged
  obtain ⟨-, hjobs, -, hholds, hevents⟩ := intake_converges .nil racingPool_run
  have hholds := hholds 1 second hended hreplay
  obtain ⟨stored, hstored, -⟩ := hholds.stored
  rw [hid] at hstored
  obtain ⟨job, hjob, hunique⟩ := hjobs 1 stored hstored
  have hflagged : ∀ job ∈ (current staff racingPool.shared.trace).findJobByReceiptId 1,
      job.duplicateDetected = true := by decide +kernel
  refine ⟨second, hended, hid, hholds, ⟨job, hjob, hunique⟩, ?_⟩
  rw [hevents 1 stored job hstored hjob, hflagged job hjob]
  rfl

/-! ## All or nothing -/

/-- The transaction that marks a receipt always finds its job. -/
theorem Run.markDuplicate_ne_illegalState (h : Run P employees trace) {snapshot : Database}
    (hsnapshot : snapshot ∈ snapshots employees trace) (receiptId : Long) (now : Instant)
    (today : LocalDate) (message : String) :
    markDuplicate snapshot receiptId now today ≠ .error (.illegalState message) := by
  obtain ⟨moment, hmoment, rfl⟩ := mem_snapshots_iff.mp hsnapshot
  have hpaired := (h.suffix hmoment).current_refines.paired
  intro herror
  rcases markDuplicate_eq_error herror with ⟨-, hother⟩ | ⟨hfound, hnone⟩
  · exact absurd hother (by simp)
  · obtain ⟨receipt, hreceipt⟩ := Option.ne_none_iff_exists'.mp hfound
    obtain ⟨x, hx, rfl⟩ := hpaired.of_receipt hreceipt
    rw [← Database.id_of_receiptRow hreceipt, hpaired.findJobByReceiptId hx] at hnone
    exact absurd hnone (by simp)

/-- A call does not miss the job of the receipt that it has found. -/
theorem CallsRun.not_missing [DecidableEq ι] {pool : CallsPool ι}
    (hcalls : CallsRun P employees exclusive calls base pool) (hbase : Run P employees base) {i : ι}
    {newer older : UploadTranscript} {found receipt : Receipt}
    (hpast : pool.past i =
      newer ++ (⟨.findJobByReceiptId receipt.id, .ok none⟩ : UploadExchange) :: older)
    (hfound : ∃ exchange ∈ older, finds exchange = some found)
    (hreceipt : receipt = found ∨ Answered older (.markDuplicate found.id) receipt) : False := by
  have hrun := hcalls.run hbase
  have hturn := hcalls.true_in_turn i
  rw [hpast] at hturn
  obtain ⟨moment, hmoment, hnone, hrest⟩ := hturn.at_exchange
  have hthen := hrun.suffix hmoment
  -- the receipt was stored when it was found, and so it was when its job was looked up
  obtain ⟨stored, hstored⟩ : ∃ stored,
      (current employees moment).receiptRow found.id = some stored := by
    obtain ⟨exchange, hmem, hfinds⟩ := hfound
    obtain ⟨earlier, -, hearlier, htrue⟩ := hrest.true_since hmem
    have hthere : (current employees earlier).findReceipt found.id = some found := by
      unfold finds at hfinds
      split at hfinds
      · rename_i id answer
        have hanswer : answer = (current employees earlier).findReceipt id := htrue
        rw [hfinds] at hanswer
        rw [Database.id_of_findReceipt hanswer.symm, ← hanswer]
      · rename_i answer
        have hanswer : answer = (current employees earlier).findByCompanyIdAndImageSha256 P _ _ :=
          htrue
        rw [hfinds] at hanswer
        exact (findByCompanyIdAndImageSha256_eq_some hanswer.symm).1
      · exact absurd hfinds (by simp)
    obtain ⟨row, hrow, rfl⟩ := Database.findReceipt_eq_some.mp hthere
    obtain ⟨stored, hstored, -⟩ := hthen.stored_later hearlier hrow
    exact ⟨stored, hstored⟩
  have hid : receipt.id = found.id := by
    rcases hreceipt with rfl | hmarked
    · rfl
    · have hmem : (⟨.markDuplicate found.id, .ok receipt⟩ : UploadExchange) ∈
          committed (pool.past i) := by
        rw [hpast, committed, List.mem_filter]
        exact ⟨by simp [show _ ∈ older from hmarked], rfl⟩
      obtain ⟨commit, hown, hmade⟩ :=
        Outcome.exists_of_forall₂_right (hcalls.own_madeBy i) hmem
      obtain ⟨earlier, -, hcommit⟩ := hrun.at_commit (CallsState.mem_trace_of_own hown)
      obtain ⟨stored', hstored', hsame⟩ := hcommit.returns_marked hmade
      exact hsame.id.trans (Database.id_of_receiptRow hstored')
  obtain ⟨job, hjob, -⟩ := hthen.complete.jobs _ _ hstored
  have hfalse : none = (current employees moment).findJobByReceiptId receipt.id := hnone
  rw [hid, hjob] at hfalse
  exact absurd hfalse (by simp)

/-- For any uploads beside each other, and whether or not the lock is exclusive: a
call that throws has committed nothing, unless one of its requests failed after a
commit; a call that returns a new receipt has stored it in one commit; every store
that is reached is complete; and the exception for a missing job is thrown neither
by a call nor by the transaction that marks a receipt. -/
theorem intake_atomic [DecidableEq ι] {pool : CallsPool ι} (hbase : Run P employees base)
    (hcalls : CallsRun P employees exclusive calls base pool) :
    (∀ i e, pool.Ended i (.error e) → ¬ FailedLate (pool.past i) → pool.shared.own i = []) ∧
    (∀ i result, pool.Ended i (.ok result) → result.created = true →
      ∃ commit, pool.shared.own i = [commit] ∧
        commit.Stores P (calls i) result.receipt result.job) ∧
    (current employees pool.shared.trace).Complete ∧
    (∀ i message, pool.Ended i (.error (.illegalState message)) →
      ∃ request, (⟨request, .error (.illegalState message)⟩ : UploadExchange) ∈ pool.past i) ∧
    (∀ snapshot ∈ snapshots employees pool.shared.trace, ∀ receiptId now today message,
      markDuplicate snapshot receiptId now today ≠ .error (.illegalState message)) := by
  have hrun := hcalls.run hbase
  refine ⟨?_, ?_, hrun.complete, ?_, ?_⟩
  · intro i e hended hlate
    -- a call that has failed without a commit has stored nothing
    apply hcalls.own_eq_nil
    cases hcalls.ended hended with
    | rejected _ hnone => exact hnone
    | conflict hnone => exact hnone
    | failed _ _ hcommitted => exact hcommitted.resolve_right hlate
    | missing hpast hfound hreceipt =>
        exact (hcalls.not_missing hbase hpast hfound hreceipt).elim
    | lost _ _ hnone => exact hnone
  · intro i result hended hcreated
    obtain ⟨commit, hown, hstores, -⟩ := hcalls.stored_by hbase hended hcreated
    exact ⟨commit, hown, hstores⟩
  · intro i message hended
    cases hcalls.ended hended with
    | rejected hrejection => exact absurd hrejection (by simp [Failure.isRejection])
    | @failed _ _ _ request _ hpast => exact ⟨request, by simp [hpast]⟩
    | missing hpast hfound hreceipt =>
        exact (hcalls.not_missing hbase hpast hfound hreceipt).elim
  · intro snapshot hsnapshot
    exact hrun.markDuplicate_ne_illegalState hsnapshot

open Sample in
/-- The first of two calls stores its receipt in one commit. -/
theorem racingPool_atomic :
    ∃ first commit, racingPool.Ended 0 (.ok first) ∧ racingPool.shared.own 0 = [commit] ∧
      commit.Stores platform (racingCalls 0) first.receipt first.job ∧
      (current staff racingPool.shared.trace).Complete := by
  obtain ⟨first, hended, hcreated, -⟩ := racingPool_created
  obtain ⟨-, hstores, hcomplete, -⟩ := intake_atomic .nil racingPool_run
  obtain ⟨commit, hown, hcommit⟩ := hstores 0 first hended hcreated
  exact ⟨first, commit, hended, hown, hcommit, hcomplete⟩

end ReceiptReview
