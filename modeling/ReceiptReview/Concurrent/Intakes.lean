import ReceiptReview.Concurrent.Calls
import ReceiptReview.Lifecycle.Creations
import ReceiptReview.Lifecycle.Marks

/-!
# What a call stores and returns

A call that returns a new receipt has committed one transaction, and that has
inserted the receipt with its job, its key and its event (`Commit.Stores`).  The
receipt that a call returns, unless it is a replay, is the stored one of its own
image (`CallsRun.returned_image`).  All other steps add no intake
(`CallsRun.creation_cases`).
-/

namespace ReceiptReview

open Java Store ReceiptCase UploadTranscript ReceiptUploadService

variable {P : Platform} {employees : Table Employee} {ι : Type} {exclusive : Prop}
variable {calls : ι → UploadCall} {call : UploadCall} {base trace : List Commit} {commit : Commit}
variable {receipt : Receipt} {job : ReceiptExtractionJob}

/-! ## One commit -/

/-- The commit has inserted the receipt of the call with its job, its `UPLOADED`
event and, unless the key is blank, its idempotency record, and nothing else. -/
structure Commit.Stores (P : Platform) (call : UploadCall) (receipt : Receipt)
    (job : ReceiptExtractionJob) (commit : Commit) : Prop where
  companyId : receipt.companyId = call.companyId
  imageSha256 : receipt.imageSha256 = P.sha256 call.bytes
  ownerEmployeeId : receipt.ownerEmployeeId = call.ownerId
  receiptId : job.receiptId = receipt.id
  queued : job.status = .queued
  receipts : commit.before.receipts.insert receipt = some commit.after.receipts
  jobs : commit.before.jobs.insert job = some commit.after.jobs
  records : ∃ createdAt, commit.after.idempotencyRecords = commit.before.idempotencyRecords ++
    (((normalize call.idempotencyKey).filter fun key => !key.isBlank).map fun key =>
      { companyId := call.companyId, idempotencyKey := key, receiptId := receipt.id,
        createdAt : IdempotencyRecord }).toList
  events : ∃ event, event.action = .uploaded ∧ event.receiptId = receipt.id ∧
    commit.after.auditEvents = commit.before.auditEvents ++ [event]
  employees : commit.after.employees = commit.before.employees

/-- The job of an intake is new, and it is the job that is returned. -/
theorem job_of_createQueued {imageStorageKey : JString} {idempotencyKey : Option JString}
    {auditEvents : List AuditEvent} {receiptId jobId : Long} {createdAt recordedAt : Instant}
    {pair : Receipt × ReceiptExtractionJob} {changes : Database.Changes} {new : Database.Creation}
    (hcreate : ReceiptPersistenceService.createQueued receipt imageStorageKey idempotencyKey
      auditEvents receiptId jobId createdAt recordedAt = .ok (pair, changes))
    (hcreated : changes.created = some new) :
    new.job = pair.2 ∧ pair.2.receiptId = pair.1.id ∧ pair.2.status = .queued := by
  cases hcreate
  cases hcreated
  exact ⟨rfl, rfl, rfl⟩

/-- The intake that a call commits. -/
structure Database.Creation.OfCall (P : Platform) (call : UploadCall) (receipt : Receipt)
    (job : ReceiptExtractionJob) (new : Database.Creation) : Prop where
  theReceipt : new.receipt = receipt
  theJob : new.job = job
  companyId : receipt.companyId = call.companyId
  imageSha256 : receipt.imageSha256 = P.sha256 call.bytes
  ownerEmployeeId : receipt.ownerEmployeeId = call.ownerId
  receiptId : job.receiptId = receipt.id
  queued : job.status = .queued
  record : ∃ createdAt, new.record =
    ((normalize call.idempotencyKey).filter fun key => !key.isBlank).map fun key =>
      { companyId := call.companyId, idempotencyKey := key, receiptId := receipt.id, createdAt }

/-- The changes of the transaction that stores the receipt of a call. -/
theorem Extends.intake
    (h : Extends P employees trace commit.operation commit.reply (commit :: trace))
    {imageStorageKey : JString} {contentType : Option JString} {now : Instant}
    (hmade : commit.MadeBy ⟨.createQueued
      (acceptedReceipt call.companyId (P.sha256 call.bytes) call.fileName contentType
        call.bytes.length call.ownerId now) imageStorageKey (normalize call.idempotencyKey)
      [uploadedEvent (P.sha256 call.bytes) call.fileName contentType call.bytes.length
        call.ownerId now], .ok (receipt, job)⟩) :
    ∃ new event, commit.changes = { created := some new, events := [event] } ∧
      new.OfCall P call receipt job ∧ event.action = .uploaded ∧ event.receiptId = receipt.id := by
  obtain ⟨-, -, snapshot, -, hbody⟩ := h.head
  obtain ⟨⟨receiptId, jobId, createdAt, recordedAt, hoperation⟩, hreply⟩ := hmade
  -- only an upload calls the transaction, with what it has been given
  have hpermitted : commit.operation.Permitted P employees := by
    rw [hoperation]
    exact ⟨call, contentType, now, rfl, rfl, rfl⟩
  rw [hoperation] at hpermitted hbody
  rw [hreply] at hbody
  simp only [Operation.body, replyWith_eq_ok] at hbody
  obtain ⟨pair, hresult, hpair⟩ := hbody
  obtain ⟨rfl, rfl⟩ := Reply.created.inj hpair
  obtain ⟨new, hchanges, -, hnew, hreceipt, hrecord⟩ := wellFormed_createQueued hpermitted hresult
  obtain ⟨hjob, hreceiptId, hqueued⟩ := job_of_createQueued hresult (by rw [hchanges])
  refine ⟨new, _, hchanges, ?_, rfl, ?_⟩
  · constructor
    case theReceipt => exact hnew.symm
    case theJob => exact hjob
    case companyId | imageSha256 | ownerEmployeeId =>
      rw [hnew, hreceipt]
      rfl
    case receiptId => exact hreceiptId
    case queued => exact hqueued
    case record =>
      refine ⟨recordedAt, ?_⟩
      rw [hrecord, hnew, hreceipt]
      rfl
  · rw [hnew, hreceipt]
    rfl

/-- The transaction of a call that stores its receipt. -/
theorem Extends.stores
    (h : Extends P employees trace commit.operation commit.reply (commit :: trace))
    {imageStorageKey : JString} {contentType : Option JString} {now : Instant}
    (hmade : commit.MadeBy ⟨.createQueued
      (acceptedReceipt call.companyId (P.sha256 call.bytes) call.fileName contentType
        call.bytes.length call.ownerId now) imageStorageKey (normalize call.idempotencyKey)
      [uploadedEvent (P.sha256 call.bytes) call.fileName contentType call.bytes.length
        call.ownerId now], .ok (receipt, job)⟩) :
    commit.Stores P call receipt job ∧
      ∃ new, commit.changes.created = some new ∧ new.receipt = receipt := by
  obtain ⟨-, hcommit, -⟩ := h.head
  obtain ⟨new, event, hchanges, hnew, haction, hevent⟩ := h.intake hmade
  rw [hchanges] at hcommit
  obtain ⟨-, receipts, jobs, hreceipts, hjobs, hafter⟩ := Database.commit_created hcommit
  refine ⟨?_, new, by rw [hchanges], hnew.theReceipt⟩
  obtain ⟨recordedAt, hrecord⟩ := hnew.record
  constructor
  case companyId => exact hnew.companyId
  case imageSha256 => exact hnew.imageSha256
  case ownerEmployeeId => exact hnew.ownerEmployeeId
  case receiptId => exact hnew.receiptId
  case queued => exact hnew.queued
  case receipts => rw [← hnew.theReceipt, hreceipts, hafter]
  case jobs => rw [← hnew.theJob, hjobs, hafter]
  case records => exact ⟨recordedAt, by rw [hafter, hrecord]⟩
  case events => exact ⟨event, haction, hevent, by rw [hafter]⟩
  case employees => rw [hafter]

/-- The transaction of a call that marks a receipt returns the stored receipt. -/
theorem Run.returns_marked (h : Run P employees (commit :: trace)) {id : Long}
    (hmade : commit.MadeBy ⟨.markDuplicate id, .ok receipt⟩) :
    ∃ stored, commit.after.receiptRow id = some stored ∧ SameReceipt stored receipt := by
  obtain ⟨hrun, -, -, -, snapshot, hsnapshot, hbody⟩ := h.head
  obtain ⟨⟨now, today, hoperation⟩, hreply⟩ := hmade
  rw [hoperation, hreply] at hbody
  simp only [Operation.body, replyWith_eq_ok] at hbody
  obtain ⟨result, hresult, hsame⟩ := hbody
  cases hsame
  obtain ⟨read, hread, hmarked⟩ := sameReceipt_of_markDuplicate hresult
  obtain ⟨moment, hmoment, rfl⟩ := mem_snapshots_iff.mp hsnapshot
  obtain ⟨stored, hstored, hkept⟩ := h.stored_later (hmoment.trans (List.suffix_cons _ _)) hread
  exact ⟨stored, hstored, (SameReceipt.symm hkept).trans hmarked⟩

/-- A commit of a run, with the run up to it. -/
theorem Run.at_commit (h : Run P employees trace) (hmem : commit ∈ trace) :
    ∃ earlier, commit :: earlier <:+ trace ∧ Run P employees (commit :: earlier) := by
  obtain ⟨later, earlier, rfl⟩ := List.append_of_mem hmem
  exact ⟨earlier, List.suffix_append _ _, h.suffix (List.suffix_append _ _)⟩

/-! ## The intakes of a step -/

/-- Workers and employees add no intake. -/
theorem creations_of_others {s s' : CallsState ι} (h : CallsState.Others P employees s s') :
    creations s'.trace = creations s.trace := by
  obtain ⟨commit, hintake, -, hextends, rfl⟩ := h
  refine creations_cons_of_none (hextends.created_eq_none ?_)
  intro _ _ _ _ _ _ _ _ heq
  rw [heq] at hintake
  exact absurd hintake (by simp [Operation.isIntake])

/-- A request of a call adds no intake, or that of the call, under its lock. -/
theorem CallsState.Serves.creation_cases {s s' : CallsState ι} {i : ι} {past : UploadTranscript}
    {request : UploadRequest} {answer : request.Answer}
    (h : CallsState.Serves P employees exclusive i s request answer s')
    (hallows : UploadAllows P call past request) :
    creations s'.trace = creations s.trace ∨
      ∃ new receipt job, Holding past ∧ new.OfCall P call receipt job ∧
        creations s'.trace = new :: creations s.trace := by
  rcases h.log_cases with ⟨hlog, -⟩ | ⟨commit, hmade, hextends, rfl⟩
  · exact .inl (congrArg creations (CallsState.trace_of_log hlog))
  · rcases hmade.cases with ⟨_, _, _, _, created, job, hexchange⟩ | ⟨_, _, hexchange⟩
    · cases hexchange
      obtain ⟨hholding, -, contentType, now, rfl, rfl, rfl⟩ := hallows
      obtain ⟨new, event, hchanges, hnew, -⟩ := hextends.intake hmade
      exact .inr ⟨new, created, job, hholding, hnew, creations_cons_of_some (by rw [hchanges])⟩
    · cases hexchange
      obtain ⟨⟨now, today, hoperation⟩, -⟩ := hmade
      refine .inl (creations_cons_of_none (hextends.created_eq_none ?_))
      simp [hoperation]

/-- A step adds no intake, or that of a call that holds its lock. -/
theorem CallsRun.creation_cases [DecidableEq ι] {pool pool' : CallsPool ι}
    (h : CallsRun P employees exclusive calls base pool)
    (hstep : Pool.Step (callsRules P employees exclusive calls) pool pool') :
    creations pool'.shared.trace = creations pool.shared.trace ∨
      ∃ i p exchange new receipt job, pool.threads i = some ⟨pool.past i, some p⟩ ∧
        Holding (pool.past i) ∧ pool'.past i = exchange :: pool.past i ∧
        new.OfCall P (calls i) receipt job ∧
        creations pool'.shared.trace = new :: creations pool.shared.trace := by
  rcases hstep.past_cases with ⟨-, hothers | ⟨i, hstarts | hdies⟩⟩ |
    ⟨i, request, answer, next, hthread, hserves, hpast, -⟩
  · exact .inl (creations_of_others hothers)
  · rw [show pool'.shared = pool.shared from hstarts]
    exact .inl rfl
  · rw [show pool'.shared = _ from hdies]
    exact .inl rfl
  · rcases CallsState.Serves.creation_cases hserves (h.allowed hthread) with
      hsame | ⟨new, receipt, job, hholding, hnew, hlist⟩
    · exact .inl hsame
    · exact .inr ⟨i, _, _, new, receipt, job, hthread, hholding, hpast, hnew, hlist⟩

/-! ## The commits of a call -/

variable {pool : CallsPool ι}

theorem CallsRun.ended [DecidableEq ι] (h : CallsRun P employees exclusive calls base pool) {i : ι}
    {outcome : Except Failure UploadResult} (hended : pool.Ended i outcome) :
    UploadEnds P (calls i) outcome (pool.past i) :=
  h.ends hended

theorem CallsRun.run [DecidableEq ι] (h : CallsRun P employees exclusive calls base pool)
    (hbase : Run P employees base) : Run P employees pool.shared.trace :=
  h.continues.run hbase

theorem CallsState.mem_trace_of_own [DecidableEq ι] {s : CallsState ι} {i : ι}
    (h : commit ∈ s.own i) : commit ∈ s.trace :=
  List.mem_map_of_mem (CallsState.mem_own.mp h)

/-- The one transaction of a call is its one commit. -/
theorem CallsRun.own_eq_singleton [DecidableEq ι]
    (h : CallsRun P employees exclusive calls base pool) {i : ι} {exchange : UploadExchange}
    (hone : committed (pool.past i) = [exchange]) :
    ∃ commit : Commit, pool.shared.own i = [commit] ∧ commit.MadeBy exchange := by
  have hmade := h.own_madeBy i
  rw [hone] at hmade
  obtain ⟨commit, rest, hcommit, hrest, hown⟩ := List.forall₂_cons_right_iff.mp hmade
  rw [List.forall₂_nil_right_iff.mp hrest] at hown
  exact ⟨commit, hown, hcommit⟩

/-- A call without a transaction has committed nothing. -/
theorem CallsRun.own_eq_nil [DecidableEq ι] (h : CallsRun P employees exclusive calls base pool)
    {i : ι} (hnone : committed (pool.past i) = []) : pool.shared.own i = [] := by
  have hmade := h.own_madeBy i
  rw [hnone] at hmade
  exact List.forall₂_nil_right_iff.mp hmade

/-- A call that returns a new receipt has stored it. -/
theorem CallsRun.stored_by [DecidableEq ι] (h : CallsRun P employees exclusive calls base pool)
    (hbase : Run P employees base) {i : ι} {result : UploadResult}
    (hended : pool.Ended i (.ok result)) (hcreated : result.created = true) :
    ∃ commit, pool.shared.own i = [commit] ∧
      commit.Stores P (calls i) result.receipt result.job ∧
      ∃ new, commit.changes.created = some new ∧ new.receipt = result.receipt := by
  cases h.ended hended with
  | replayed _ _ _ _ _ _ hnot | processed _ _ _ _ _ hnot | marked _ _ _ _ hnot =>
      rw [hcreated] at hnot
      exact absurd hnot (by simp)
  | created hone =>
      obtain ⟨commit, hown, hmade⟩ := h.own_eq_singleton hone
      have hmem : commit ∈ pool.shared.trace :=
        CallsState.mem_trace_of_own (by rw [hown]; exact List.mem_singleton_self _)
      obtain ⟨earlier, -, hrun⟩ := (h.run hbase).at_commit hmem
      exact ⟨commit, hown, hrun.extends.stores hmade⟩

/-- Two calls that have stored the same receipt are one call. -/
theorem CallsRun.eq_of_stored [DecidableEq ι] (h : CallsRun P employees exclusive calls base pool)
    (hbase : Run P employees base) {i j : ι} {mine theirs : Commit}
    {new new' : Database.Creation} (hi : mine ∈ pool.shared.own i)
    (hj : theirs ∈ pool.shared.own j) (hnew : mine.changes.created = some new)
    (hnew' : theirs.changes.created = some new') (hid : new.receipt.id = new'.receipt.id) :
    i = j := by
  by_contra hij
  have hne : (some i, mine) ≠ (some j, theirs) := fun heq =>
    hij (Option.some.inj (Prod.mk.inj heq).1)
  have hnodup := (h.run hbase).catalogued.nodup
  rw [creations, CallsState.trace, List.filterMap_map, List.map_filterMap, List.Nodup,
    List.pairwise_filterMap] at hnodup
  let createdId (entry : Option ι × Commit) : Option Long :=
    entry.2.changes.created.map fun new => new.receipt.id
  have hdistinct : pool.shared.log.Pairwise fun a b =>
      ∀ id, createdId a = some id → ∀ id', createdId b = some id' → id ≠ id' := hnodup
  have : Std.Symm fun a b : Option ι × Commit =>
      ∀ id, createdId a = some id → ∀ id', createdId b = some id' → id ≠ id' :=
    ⟨fun a b hab id hid id' hid' heq => hab id' hid' id hid heq.symm⟩
  refine hdistinct.forall (CallsState.mem_own.mp hi) (CallsState.mem_own.mp hj) hne
    new.receipt.id ?_ new'.receipt.id ?_ hid
  · simp [createdId, hnew]
  · simp [createdId, hnew']

/-! ## The receipt that a call returns -/

/-- The receipt is stored, and has the image of the call. -/
structure Database.HoldsImage (P : Platform) (db : Database) (call : UploadCall)
    (receipt : Receipt) : Prop where
  stored : ∃ stored, db.receiptRow receipt.id = some stored ∧ SameReceipt stored receipt
  companyId : P.textEq receipt.companyId call.companyId = true
  imageSha256 : receipt.imageSha256 = P.sha256 call.bytes

/-- A receipt that was found by the image of a call. -/
theorem CallsRun.holdsImage [DecidableEq ι] (h : CallsRun P employees exclusive calls base pool)
    (hbase : Run P employees base) {i : ι}
    (hfound : Answered (pool.past i) (.findByCompanyIdAndImageSha256 (calls i).companyId
      (P.sha256 (calls i).bytes)) (some receipt)) :
    (current employees pool.shared.trace).HoldsImage P (calls i) receipt := by
  have hrun := h.run hbase
  obtain ⟨moment, -, hupto, hthen⟩ := h.true_since i _ hfound
  obtain ⟨hreceipt, hcompany, himage⟩ := findByCompanyIdAndImageSha256_eq_some hthen.symm
  obtain ⟨row, hrow, rfl⟩ := Database.findReceipt_eq_some.mp hreceipt
  obtain ⟨stored, hstored, hsame⟩ := hrun.stored_later hupto hrow
  exact ⟨⟨stored, hstored, SameReceipt.symm hsame.of_reread⟩, hcompany,
    (hrun.suffix hupto).imageSha256_of_textEq hrow himage⟩

/-- A successful call returns the receipt of its own image, unless it is a replay. -/
theorem CallsRun.returned_image [DecidableEq ι]
    (h : CallsRun P employees exclusive calls base pool) (hbase : Run P employees base) {i : ι}
    {result : UploadResult} (hended : pool.Ended i (.ok result))
    (hreplay : result.idempotentReplay = false) :
    (current employees pool.shared.trace).HoldsImage P (calls i) result.receipt := by
  have hrun := h.run hbase
  cases h.ended hended with
  | replayed _ _ _ _ _ _ _ hreplayed =>
      rw [hreplay] at hreplayed
      exact absurd hreplayed (by simp)
  | processed hfound => exact h.holdsImage hbase hfound
  | marked hfound _ _ hone =>
      obtain ⟨⟨now, hnow, hsame⟩, hcompany, himage⟩ := h.holdsImage hbase hfound
      obtain ⟨commit, hown, hmade⟩ := h.own_eq_singleton hone
      have hmem : commit ∈ pool.shared.trace :=
        CallsState.mem_trace_of_own (by rw [hown]; exact List.mem_singleton_self _)
      obtain ⟨earlier, hsuffix, hthen⟩ := hrun.at_commit hmem
      obtain ⟨stored, hstored, hreturned⟩ := hthen.returns_marked hmade
      -- the receipt that was marked is the receipt that was found
      obtain ⟨later, hlater, hkept⟩ := hrun.stored_later hsuffix hstored
      rw [hnow] at hlater
      cases hlater
      have hall : SameReceipt now result.receipt := (SameReceipt.symm hkept).trans hreturned
      have hboth := (SameReceipt.symm hsame).trans hall
      refine ⟨⟨now, ?_, hall⟩, ?_, hboth.imageSha256.trans himage⟩
      · rw [hboth.id]
        exact hnow
      · rw [hboth.companyId]
        exact hcompany
  | created hone =>
      obtain ⟨commit, hown, hmade⟩ := h.own_eq_singleton hone
      have hmem : commit ∈ pool.shared.trace :=
        CallsState.mem_trace_of_own (by rw [hown]; exact List.mem_singleton_self _)
      obtain ⟨earlier, hsuffix, hthen⟩ := hrun.at_commit hmem
      obtain ⟨hstores, -⟩ := hthen.extends.stores hmade
      obtain ⟨stored, hstored, hsame⟩ := hrun.stored_later hsuffix
        (Table.find?_insert_self hstores.receipts).2
      refine ⟨⟨stored, hstored, SameReceipt.symm hsame⟩, ?_, hstores.imageSha256⟩
      rw [hstores.companyId, Platform.textEq, beq_self_eq_true]

end ReceiptReview
