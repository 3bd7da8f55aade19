import ReceiptReview.Concurrent.Schedule
import ReceiptReview.Concurrent.Intakes
import ReceiptReview.Lifecycle.Rows

/-!
# Isolation of owners

An upload reads receipts of any owner, by its key and by its image.  From any
store, it returns a receipt of its own caller only, and its transactions leave
the receipts of other owners alone with all that belongs to them.  When it meets
such a receipt, it returns one of its caller or ends with a conflict
(`intake_isolated`).
-/

namespace ReceiptReview

open Java Store ReceiptCase UploadTranscript ReceiptUploadService ReceiptPersistenceService

variable {P : Platform} {employees : Table Employee} {ι : Type} {exclusive : Prop}
variable {calls : ι → UploadCall} {call : UploadCall} {base trace : List Commit} {commit : Commit}

/-! ## One commit -/

/-- The commit changes neither the receipt nor any job, idempotency record or event
of it. -/
structure Commit.LeavesAlone (commit : Commit) (receiptId : Long) : Prop where
  receipt : commit.after.receiptRow receiptId = commit.before.receiptRow receiptId
  jobs : ∀ job, job.receiptId = receiptId → (job ∈ commit.after.jobs.rows ↔
    job ∈ commit.before.jobs.rows)
  records : commit.after.idempotencyRecords.filter (fun record => record.receiptId = receiptId) =
    commit.before.idempotencyRecords.filter fun record => record.receiptId = receiptId
  events : eventsFor receiptId commit.after.auditEvents =
    eventsFor receiptId commit.before.auditEvents

/-- What the commit of a call does to the receipts of other owners, and what it returns. -/
structure Commit.Respects (commit : Commit) (ownerId : Option Long) : Prop where
  created : ∀ receipt job, commit.reply = .created receipt job →
    receipt.ownerEmployeeId = ownerId ∧ job.receiptId = receipt.id
  marked : ∀ receipt, commit.reply = .receipt receipt → receipt.ownerEmployeeId = ownerId
  others : ∀ id receipt, commit.before.receiptRow id = some receipt →
    receipt.ownerEmployeeId ≠ ownerId → commit.LeavesAlone id

/-- A row that is written in place of a stored one is a changed row. -/
theorem updated_eq_self_of_receiptId {db db' snapshot : Database} {changes : Database.Changes}
    (hrevises : changes.Revises snapshot) (hkept : snapshot.KeptBy db)
    (hcommit : db.commit P changes = .ok db') {id : Long} {job : ReceiptExtractionJob}
    (hjob : db.findJob id = some job)
    (hother : ∀ job' ∈ changes.jobs, job'.receiptId ≠ job.receiptId) :
    Table.updated changes.jobs job = job := by
  rcases Table.updated_cases changes.jobs job with ⟨hsame, -⟩ | ⟨changed, hmem, -, hupdated⟩
  · exact hsame
  · have hreceiptId := (sameJob_updated hrevises hkept hcommit hjob).receiptId
    rw [hupdated] at hreceiptId
    exact absurd hreceiptId (hother changed hmem)

/-- A commit whose rows and events belong to other receipts. -/
theorem Extends.leavesAlone (hkept : Kept employees trace)
    (hextends : Extends P employees trace commit.operation commit.reply (commit :: trace))
    {id : Long} {receipt : Receipt} (hstored : commit.before.receiptRow id = some receipt)
    (hreceipts : ∀ receipt' ∈ commit.changes.receipts, receipt'.id ≠ id)
    (hjobs : ∀ job' ∈ commit.changes.jobs, job'.receiptId ≠ id)
    (hcreated : ∀ new, commit.changes.created = some new → new.job.receiptId ≠ id ∧
      ∀ record, new.record = some record → record.receiptId ≠ id)
    (hevents : ∀ event ∈ commit.changes.events, event.receiptId ≠ id) :
    commit.LeavesAlone id := by
  obtain ⟨hbefore, hcommit, snapshot, hsnapshot, hbody⟩ := hextends.head
  have hrevises := revises_of_body hbody
  -- whatever the snapshot holds is still held under the same ids
  have hkeeps : snapshot.KeptBy commit.before := hbefore ▸ hkept snapshot hsnapshot
  constructor
  case receipt =>
    rw [receiptRow_after hcommit hstored, hstored]
    rcases Table.updated_cases commit.changes.receipts receipt with
      ⟨hsame, -⟩ | ⟨changed, hmem, hkey, -⟩
    · rw [hsame]
    · have hid : changed.id = id := by
        rw [← Database.id_of_receiptRow hstored]
        exact hkey
      exact absurd hid (hreceipts changed hmem)
  case jobs =>
    intro job hid
    constructor
    · intro hmem
      have hafter : commit.after.findJob job.id = some job := Table.find?_of_mem hmem
      -- a job of the receipt was there, and no row of the commit replaces it
      rcases findJob_before hcommit hafter with ⟨row, hrow, hupdated⟩ | ⟨new, hnew, rfl⟩
      · have hsame := (sameJob_updated hrevises hkeeps hcommit hrow).receiptId
        rw [← hupdated, hid] at hsame
        rw [updated_eq_self_of_receiptId hrevises hkeeps hcommit hrow (hsame ▸ hjobs)] at hupdated
        rw [hupdated]
        exact Table.mem_of_find? hrow
      · exact absurd hid (hcreated new hnew).1
    · intro hmem
      have hthere : commit.before.findJob job.id = some job := Table.find?_of_mem hmem
      have hafter := findJob_after hcommit hthere
      rw [updated_eq_self_of_receiptId hrevises hkeeps hcommit hthere (hid ▸ hjobs)] at hafter
      exact Table.mem_of_find? hafter
  case records =>
    have hnone : (commit.changes.created.bind Database.Creation.record).toList.filter
        (fun record => record.receiptId = id) = [] := by
      rw [List.filter_eq_nil_iff]
      intro record hmem
      obtain ⟨new, hnew, hrecord⟩ := Option.bind_eq_some_iff.mp (Option.mem_toList.mp hmem)
      simpa using (hcreated new hnew).2 record hrecord
    rw [idempotencyRecords_after hcommit, List.filter_append, hnone, List.append_nil]
  case events =>
    rw [Database.auditEvents_commit hcommit, eventsFor_append, eventsFor_eq_nil hevents,
      List.append_nil]

/-- The transaction that stores a receipt. -/
theorem respects_createQueued (hkept : Kept employees trace)
    (hextends : Extends P employees trace commit.operation commit.reply (commit :: trace))
    {imageStorageKey : JString} {contentType : Option JString} {now : Instant}
    {pair : Receipt × ReceiptExtractionJob}
    (hmade : commit.MadeBy ⟨.createQueued
      (acceptedReceipt call.companyId (P.sha256 call.bytes) call.fileName contentType
        call.bytes.length call.ownerId now) imageStorageKey (normalize call.idempotencyKey)
      [uploadedEvent (P.sha256 call.bytes) call.fileName contentType call.bytes.length
        call.ownerId now], .ok pair⟩) : commit.Respects call.ownerId := by
  obtain ⟨receipt, job⟩ := pair
  obtain ⟨-, hcommit, -⟩ := hextends.head
  obtain ⟨new, event, hchanges, hnew, -, hevent⟩ := hextends.intake hmade
  have hreply : commit.reply = .created receipt job := hmade.2
  rw [hchanges] at hcommit
  obtain ⟨-, receipts, jobs, hinsert, -, -⟩ := Database.commit_created hcommit
  -- nothing was stored under the id of the new receipt
  have hfresh : commit.before.receiptRow receipt.id = none := by
    rw [← hnew.theReceipt]
    exact (Table.find?_insert_self hinsert).1
  constructor
  case created =>
    intro receipt' job' hcreated
    rw [hreply] at hcreated
    obtain ⟨rfl, rfl⟩ := Reply.created.inj hcreated
    exact ⟨hnew.ownerEmployeeId, hnew.receiptId⟩
  case marked =>
    intro receipt' hmarked
    rw [hreply] at hmarked
    cases hmarked
  case others =>
    intro id other hstored _
    have hother : receipt.id ≠ id := by
      rintro rfl
      rw [hfresh] at hstored
      exact absurd hstored (by simp)
    refine hextends.leavesAlone hkept hstored (by simp [hchanges]) (by simp [hchanges]) ?_ ?_
    · intro new' hnew'
      rw [hchanges] at hnew'
      cases hnew'
      refine ⟨?_, fun record hsome => ?_⟩
      · rw [hnew.theJob, hnew.receiptId]
        exact hother
      · obtain ⟨createdAt, hrecord⟩ := hnew.record
        rw [hrecord] at hsome
        obtain ⟨key, -, rfl⟩ := Option.map_eq_some_iff.mp hsome
        exact hother
    · simp [hchanges, hevent, hother]

/-- The transaction that marks a receipt of the caller. -/
theorem respects_markDuplicate (hkept : Kept employees trace)
    (hextends : Extends P employees trace commit.operation commit.reply (commit :: trace))
    {receiptId : Long} {receipt existing : Receipt}
    (hmade : commit.MadeBy ⟨.markDuplicate receiptId, .ok receipt⟩)
    (hexisting : commit.before.receiptRow receiptId = some existing) :
    commit.Respects existing.ownerEmployeeId := by
  obtain ⟨hbefore, hcommit, snapshot, hsnapshot, hbody⟩ := hextends.head
  obtain ⟨⟨now, today, hoperation⟩, hreply⟩ := hmade
  rw [hoperation, hreply] at hbody
  simp only [Operation.body, replyWith_eq_ok] at hbody
  obtain ⟨result, hresult, hsame⟩ := hbody
  cases hsame
  have hkeeps : snapshot.KeptBy commit.before := hbefore ▸ hkept snapshot hsnapshot
  obtain ⟨read, hread, hmarked⟩ := sameReceipt_of_markDuplicate hresult
  obtain ⟨stored, hstored, hsameOwner⟩ := hkeeps.receipts _ _ hread
  rw [hexisting] at hstored
  cases hstored
  constructor
  case created =>
    intro receipt' job hcreated
    rw [hreply] at hcreated
    cases hcreated
  case marked =>
    intro receipt' hreceipt'
    rw [hreply] at hreceipt'
    cases hreceipt'
    rw [hmarked.ownerEmployeeId, hsameOwner.ownerEmployeeId]
  case others =>
    intro id other hother howner
    have hne : receiptId ≠ id := by
      rintro rfl
      rw [hexisting] at hother
      cases hother
      exact howner rfl
    -- every row and event that is written belongs to the marked receipt
    obtain ⟨receipt', job, hreceipt', hjob, -, -, hcase⟩ := markDuplicate_eq_ok hresult
    have hid : receipt'.id ≠ id := by
      rw [Database.id_of_receiptRow hreceipt']
      exact hne
    have hjobId : job.receiptId ≠ id := by
      rw [(Database.findJob_of_findJobByReceiptId hjob).2]
      exact hne
    refine hextends.leavesAlone hkept hother ?_ ?_ ?_ ?_ <;>
      rcases hcase with ⟨-, hchanges⟩ | ⟨-, -, hchanges⟩ | ⟨-, -, hchanges⟩ |
        ⟨-, _, _, -, -, hchanges⟩ <;> rw [hchanges] <;>
      simp [hid, hjobId, Receipt.updateData, ReceiptExtractionJob.markDuplicate, deferredEvent,
        duplicateEvent, systemEvent]

/-! ## The commits of a call -/

variable {pool : CallsPool ι} [DecidableEq ι]

theorem Kept.continues (h : Kept employees base) (hcontinues : Continues P employees base trace) :
    Kept employees trace := by
  induction hcontinues with
  | refl => exact h
  | commit _ _ hextends ih => exact ih.extends hextends

/-- A receipt that a call has found is still stored, with its owner. -/
theorem CallsRun.found_stored (hcalls : CallsRun P employees exclusive calls base pool)
    (hbase : Kept employees base) {i : ι} {existing : Receipt}
    (hfound : Answered (pool.past i) (.findByCompanyIdAndImageSha256 (calls i).companyId
      (P.sha256 (calls i).bytes)) (some existing)) :
    ∃ stored, (current employees pool.shared.trace).receiptRow existing.id = some stored ∧
      SameReceipt existing stored := by
  obtain ⟨moment, -, hupto, hthen⟩ := hcalls.true_since i _ hfound
  obtain ⟨row, hrow, rfl⟩ := Database.findReceipt_eq_some.mp
    (findByCompanyIdAndImageSha256_eq_some hthen.symm).1
  obtain ⟨stored, hstored, hsame⟩ :=
    ((hbase.continues hcalls.continues).of_suffix hupto).receipts _ _ hrow
  exact ⟨stored, hstored, hsame.of_reread⟩

/-- Every commit of a call respects the other owners. -/
theorem CallsRun.respects (hcalls : CallsRun P employees exclusive calls base pool)
    (hbase : Kept employees base) (i : ι) :
    ∀ commit ∈ pool.shared.own i, commit.Respects (calls i).ownerId := by
  refine @CallsRun.forall_own P employees ι exclusive calls base _ pool
    (fun i commit => commit.Respects (calls i).ownerId) hcalls ?_ i
  intro pool i past rest exchange commit hrun hthread hallows hmade hextends
  have hkept := hbase.continues hrun.continues
  rcases hmade.cases with ⟨_, _, _, _, _, _, rfl⟩ | ⟨_, _, rfl⟩
  · obtain ⟨-, -, contentType, now, rfl, rfl, rfl⟩ := hallows
    exact respects_createQueued hkept hextends hmade
  · obtain ⟨-, -, existing, older, rfl, rfl, howner, -⟩ := hallows
    have hfound : Answered (pool.past i) (.findByCompanyIdAndImageSha256 (calls i).companyId
        (P.sha256 (calls i).bytes)) (some existing) := by
      rw [Answered, Pool.past_of_thread hthread]
      exact List.mem_cons_self
    obtain ⟨stored, hstored, hsame⟩ := CallsRun.found_stored hrun hbase hfound
    rw [← howner, ← hsame.ownerEmployeeId]
    refine respects_markDuplicate hkept hextends hmade ?_
    rw [hextends.head.1]
    exact hstored

/-- The job that a call has found for a receipt. -/
theorem CallsRun.receiptId_of_found (hcalls : CallsRun P employees exclusive calls base pool)
    {i : ι} {receiptId : Long} {job : ReceiptExtractionJob}
    (hfound : Answered (pool.past i) (.findJobByReceiptId receiptId) (some job)) :
    job.receiptId = receiptId := by
  obtain ⟨moment, -, -, hthen⟩ := hcalls.true_since i _ hfound
  have hjob : some job = (current employees moment).findJobByReceiptId receiptId := hthen
  exact (Database.findJob_of_findJobByReceiptId hjob.symm).2

/-- The request failed after a receipt of another owner was met. -/
def FailedAfterMeeting (ownerId : Option Long) (past : UploadTranscript) (e : Failure) : Prop :=
  ∃ newer request older, past = newer ++ (⟨request, .error e⟩ : UploadExchange) :: older ∧
    Met ownerId older

/-- From any store, and for any uploads beside each other: a call returns a receipt
of its own caller and a job of that receipt; its commits leave the receipts of other
owners alone; and when it has met one of these, it still returns a receipt of its
caller, or ends with a conflict, unless a later request fails. -/
theorem intake_isolated (db : Database)
    (hcalls : CallsRun P employees exclusive calls db.asHistory pool) :
    (∀ i result, pool.Ended i (.ok result) →
      result.receipt.ownerEmployeeId = (calls i).ownerId ∧
        result.job.receiptId = result.receipt.id) ∧
    (∀ i, ∀ commit ∈ pool.shared.own i, ∀ id receipt,
      commit.before.receiptRow id = some receipt →
      receipt.ownerEmployeeId ≠ (calls i).ownerId → commit.LeavesAlone id) ∧
    (∀ i outcome, pool.Ended i outcome → Met (calls i).ownerId (pool.past i) →
      (∃ result, outcome = .ok result ∧ result.receipt.ownerEmployeeId = (calls i).ownerId) ∨
      (∃ message, outcome = .error (.receiptConflict message)) ∨
      ∃ e, outcome = .error e ∧ FailedAfterMeeting (calls i).ownerId (pool.past i) e) := by
  have hrespects := hcalls.respects (kept_asHistory employees db)
  have hreturned : ∀ i result, pool.Ended i (.ok result) →
      result.receipt.ownerEmployeeId = (calls i).ownerId ∧
        result.job.receiptId = result.receipt.id := by
    intro i result hended
    -- the four ways in which a call returns a receipt
    cases hcalls.ended hended with
    | replayed _ _ _ howner hjob => exact ⟨howner, hcalls.receiptId_of_found hjob⟩
    | processed _ howner hjob => exact ⟨howner, hcalls.receiptId_of_found hjob⟩
    | marked _ _ hjob hone =>
        obtain ⟨commit, hown, hmade⟩ := hcalls.own_eq_singleton hone
        have hcommit := hrespects i commit (by rw [hown]; exact List.mem_singleton_self _)
        exact ⟨hcommit.marked _ hmade.2, hcalls.receiptId_of_found hjob⟩
    | created hone =>
        obtain ⟨commit, hown, hmade⟩ := hcalls.own_eq_singleton hone
        have hcommit := hrespects i commit (by rw [hown]; exact List.mem_singleton_self _)
        exact hcommit.created _ _ hmade.2
  refine ⟨hreturned, fun i commit hmem => (hrespects i commit hmem).others, ?_⟩
  intro i outcome hended hmet
  cases outcome with
  | ok result => exact .inl ⟨result, rfl, (hreturned i result hended).1⟩
  | error e =>
      right
      -- the other exceptions end only calls that have met no such receipt
      cases hcalls.ended hended with
      | rejected _ _ hunmet => exact absurd hmet hunmet
      | conflict => exact .inl ⟨_, rfl⟩
      | @failed _ newer older request _ hpast _ _ hbefore =>
          exact .inr ⟨e, rfl, newer, request, older, hpast, hbefore hmet⟩
      | missing _ _ _ hunmet => exact absurd hmet hunmet
      | lost _ _ _ hunmet => exact absurd hmet hunmet

namespace Sample

/-- Two employees upload the same image. -/
def rivalCalls (i : ℕ) : UploadCall :=
  { uploadOf ("key-" ++ toString i) imageA with ownerId := some (i + 1) }

/-- The second call finds nothing before the lock, and the receipt of the first call
under it. -/
def rivalActions : List (CallsAction ℕ) :=
  [.start 0, .start 1] ++ goesOn 1 2 2 ++ goesOn 0 1 9 ++ goesOn 1 3 5

def rivalPool : CallsPool ℕ :=
  poolAfter platform staff True rivalCalls (Database.initial staff).asHistory rivalActions

theorem rivalPool_run :
    CallsRun platform staff True rivalCalls (Database.initial staff).asHistory rivalPool := by
  apply callsRun_poolAfter
  simp [rivalActions, goesOn, CallsAction.Permitted]

end Sample

open Sample in
/-- The second call meets the receipt of the first, and ends with a conflict. -/
theorem rivalPool_isolated :
    ∃ first message, rivalPool.Ended 0 (.ok first) ∧
      first.receipt.ownerEmployeeId = some 1 ∧ first.job.receiptId = first.receipt.id ∧
      Met (some 2) (rivalPool.past 1) ∧ rivalPool.Ended 1 (.error (.receiptConflict message)) := by
  have hreturns : rivalPool.returns 0 (fun first => first.created) = true := by decide +kernel
  obtain ⟨first, hfirst, -⟩ := Pool.ended_of_returns hreturns
  have hthrows : rivalPool.outcome? 1 =
      some (.error (.receiptConflict "이미 사용 중인 이미지 또는 요청 키입니다.")) := by
    decide +kernel
  obtain ⟨howner, hjob⟩ := (intake_isolated _ rivalPool_run).1 0 first hfirst
  exact ⟨first, _, hfirst, howner, hjob, by decide +kernel, Pool.ended_of_outcome? hthrows⟩

end ReceiptReview
