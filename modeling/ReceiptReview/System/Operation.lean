import ReceiptReview.Service.Command
import ReceiptReview.Service.Extraction
import ReceiptReview.Service.Upload

/-!
# Operations and runs

The eleven transactions of the system as one type, and the runs of the system.
A step of a run is the commit of one operation: the operation has read any
earlier snapshot of the database, and its changes are applied to the database as
it is now.  So a run is any interleaving of transactions; an operation that
throws, or whose commit fails, leaves the database as it is and is no step.

What an operation takes from its environment (readings of the clock, generated
keys, drawn tokens, rows locked by others) is an argument and arbitrary.
-/

namespace ReceiptReview

open Java Store

inductive Operation
  | createQueued (receipt : Receipt) (imageStorageKey : JString)
      (idempotencyKey : Option JString) (auditEvents : List AuditEvent)
      (receiptId jobId : Long) (createdAt recordedAt : Instant)
  | claimAvailable (workerId : JString) (batchSize leaseDuration : ℤ) (now : Instant)
      (tokens : Long → JString) (locked : List Long)
  | release (claimedJob : ClaimedReceiptJob) (now : Instant)
  | recoverExpired (batchSize : ℤ) (now : Instant) (locked : List Long)
  | completeQualityRejection (claimedJob : ClaimedReceiptJob) (quality : ImageQualityResult)
      (now : Instant)
  | completeExtraction (claimedJob : ClaimedReceiptJob) (extraction : ExtractionResult)
      (extractedAt : Instant) (today : LocalDate) (completedAt : Instant)
  | scheduleRetry (claimedJob : ClaimedReceiptJob) (errorCode : JString)
      (errorMessage : Option JString) (requestedRetryAt now : Instant)
  | failExtraction (claimedJob : ClaimedReceiptJob) (errorCode : JString)
      (errorMessage : Option JString) (now : Instant)
  | markDuplicate (receiptId : Long) (now : Instant) (today : LocalDate)
  | correctFields (session : Session) (receiptId : Long) (expectedVersion : ℤ)
      (corrections : FieldCorrections) (today : LocalDate) (now : Instant)
  | decide (session : Session) (receiptId : Long) (expectedVersion : ℤ)
      (decision : ReviewDecision) (note : Option JString) (now : Instant)

/-- What an operation returns. -/
inductive Reply
  | created (receipt : Receipt) (job : ReceiptExtractionJob)
  | claims (claims : List ClaimedReceiptJob)
  | receipt (receipt : Receipt)
  | nothing
  deriving DecidableEq, Repr

/-- Map the result of a transaction. -/
def replyWith {α : Type} (reply : α → Reply) :
    Except Failure (α × Database.Changes) → Except Failure (Reply × Database.Changes) :=
  Except.map fun (result, changes) => (reply result, changes)

/-- The transaction of an operation: its reply and its changes, from the
snapshot that it reads. -/
def Operation.body (operation : Operation) (db : Database) :
    Except Failure (Reply × Database.Changes) :=
  match operation with
  | createQueued receipt imageStorageKey idempotencyKey auditEvents receiptId jobId createdAt
      recordedAt =>
      replyWith (fun (receipt, job) => .created receipt job)
        (ReceiptPersistenceService.createQueued receipt imageStorageKey idempotencyKey auditEvents
          receiptId jobId createdAt recordedAt)
  | claimAvailable workerId batchSize leaseDuration now tokens locked =>
      replyWith .claims
        (ReceiptJobClaimService.claimAvailable db workerId batchSize leaseDuration now tokens
          locked)
  | release claimedJob now =>
      replyWith (fun _ => .nothing) (ReceiptJobClaimService.release db claimedJob now)
  | recoverExpired batchSize now locked =>
      replyWith (fun _ => .nothing)
        (ExpiredJobRecoveryService.recoverExpired db batchSize now locked)
  | completeQualityRejection claimedJob quality now =>
      replyWith .receipt
        (ReceiptExtractionLifecycleService.completeQualityRejection db claimedJob quality now)
  | completeExtraction claimedJob extraction extractedAt today completedAt =>
      replyWith .receipt
        (ReceiptExtractionLifecycleService.completeExtraction db claimedJob extraction extractedAt
          today completedAt)
  | scheduleRetry claimedJob errorCode errorMessage requestedRetryAt now =>
      replyWith .receipt
        (ReceiptExtractionLifecycleService.scheduleRetry db claimedJob errorCode errorMessage
          requestedRetryAt now)
  | failExtraction claimedJob errorCode errorMessage now =>
      replyWith .receipt
        (ReceiptExtractionLifecycleService.failExtraction db claimedJob errorCode errorMessage now)
  | markDuplicate receiptId now today =>
      replyWith .receipt (ReceiptPersistenceService.markDuplicate db receiptId now today)
  | correctFields session receiptId expectedVersion corrections today now =>
      replyWith .receipt
        (ReceiptCommandService.correctFields db session receiptId expectedVersion corrections
          today now)
  | decide session receiptId expectedVersion decision note now =>
      replyWith .receipt
        (ReceiptCommandService.decide db session receiptId expectedVersion decision note now)

/-- What the callers of an operation pass: an intake comes from the upload of an
image, and a request of an employee has passed the session filter.  Nothing is
asked of the worker's operations. -/
def Operation.Permitted (P : Platform) (employees : Table Employee) : Operation → Prop
  | createQueued receipt _ idempotencyKey auditEvents _ _ _ _ =>
      ∃ (call : UploadCall) (contentType : Option JString) (now : Instant),
        receipt = ReceiptUploadService.acceptedReceipt call.companyId (P.sha256 call.bytes)
          call.fileName contentType call.bytes.length call.ownerId now ∧
        idempotencyKey = ReceiptUploadService.normalize call.idempotencyKey ∧
        auditEvents = [ReceiptUploadService.uploadedEvent (P.sha256 call.bytes) call.fileName
          contentType call.bytes.length call.ownerId now]
  | correctFields session .. | decide session .. => session.Loaded employees
  | _ => True

/-! ## Runs -/

/-- A committed operation, with the database before and after it. -/
structure Commit where
  operation : Operation
  reply : Reply
  changes : Database.Changes
  before : Database
  after : Database

/-- The database at the end of a trace; traces hold the newest commit first. -/
def current (employees : Table Employee) : List Commit → Database
  | [] => .initial employees
  | commit :: _ => commit.after

/-- The databases that a transaction may have read. -/
def snapshots (employees : Table Employee) : List Commit → List Database
  | [] => [.initial employees]
  | commit :: trace => commit.after :: snapshots employees trace

/-- The runs from the empty store. -/
inductive Run (P : Platform) (employees : Table Employee) : List Commit → Prop
  | nil : Run P employees []
  | commit {trace : List Commit} {operation : Operation} {reply : Reply}
      {changes : Database.Changes} {snapshot after : Database} :
      Run P employees trace → operation.Permitted P employees →
      snapshot ∈ snapshots employees trace → operation.body snapshot = .ok (reply, changes) →
      (current employees trace).commit P changes = .ok after →
      Run P employees
        ({ operation, reply, changes, before := current employees trace, after } :: trace)

variable {P : Platform} {employees : Table Employee} {trace : List Commit}

theorem current_mem_snapshots (employees : Table Employee) (trace : List Commit) :
    current employees trace ∈ snapshots employees trace := by
  cases trace <;> simp [current, snapshots]

theorem mem_snapshots_iff {db : Database} :
    db ∈ snapshots employees trace ↔
      ∃ earlier, earlier <:+ trace ∧ current employees earlier = db := by
  induction trace with
  | nil => simp [snapshots, current, eq_comm]
  | cons commit trace ih =>
      rw [snapshots, List.mem_cons, ih]
      constructor
      · intro hmoment
        rcases hmoment with rfl | ⟨earlier, hsuffix, rfl⟩
        · exact ⟨commit :: trace, List.suffix_rfl, rfl⟩
        · exact ⟨earlier, hsuffix.trans (List.suffix_cons _ _), rfl⟩
      · intro hmoment
        obtain ⟨earlier, hsuffix, rfl⟩ := hmoment
        rcases List.suffix_cons_iff.mp hsuffix with rfl | hsuffix
        · exact .inl rfl
        · exact .inr ⟨earlier, hsuffix, rfl⟩

/-- An earlier moment of a run is a run. -/
theorem Run.suffix (h : Run P employees trace) {earlier : List Commit}
    (hsuffix : earlier <:+ trace) : Run P employees earlier := by
  induction h with
  | nil =>
      rw [List.suffix_nil.mp hsuffix]
      exact .nil
  | commit hrun hpermitted hsnapshot hbody hcommit ih =>
      rcases List.suffix_cons_iff.mp hsuffix with rfl | hsuffix
      · exact .commit hrun hpermitted hsnapshot hbody hcommit
      · exact ih hsuffix

/-- An operation commits: it has read a snapshot, and the trace grows by its commit. -/
def Extends (P : Platform) (employees : Table Employee) (trace : List Commit)
    (operation : Operation) (reply : Reply) (trace' : List Commit) : Prop :=
  ∃ snapshot ∈ snapshots employees trace, ∃ changes after,
    operation.body snapshot = .ok (reply, changes) ∧
    (current employees trace).commit P changes = .ok after ∧
    trace' = { operation, reply, changes, before := current employees trace, after } :: trace

theorem Extends.run {operation : Operation} {reply : Reply} {trace' : List Commit}
    (h : Extends P employees trace operation reply trace') (hrun : Run P employees trace)
    (hpermitted : operation.Permitted P employees) : Run P employees trace' := by
  obtain ⟨snapshot, hsnapshot, changes, after, hbody, hcommit, rfl⟩ := h
  exact .commit hrun hpermitted hsnapshot hbody hcommit

/-- The last commit of a run. -/
theorem Run.extends {commit : Commit} (h : Run P employees (commit :: trace)) :
    Extends P employees trace commit.operation commit.reply (commit :: trace) := by
  cases h with
  | commit _ _ hsnapshot hbody hcommit => exact ⟨_, hsnapshot, _, _, hbody, hcommit, rfl⟩

/-- The trace has grown by one commit, of that operation. -/
theorem Extends.exists_cons {operation : Operation} {reply : Reply} {trace' : List Commit}
    (h : Extends P employees trace operation reply trace') :
    ∃ commit : Commit, trace' = commit :: trace ∧ commit.operation = operation ∧
      commit.reply = reply := by
  obtain ⟨_, _, _, _, -, -, rfl⟩ := h
  exact ⟨_, rfl, rfl, rfl⟩

/-- The commit by which the trace has grown. -/
theorem Extends.head {commit : Commit}
    (h : Extends P employees trace commit.operation commit.reply (commit :: trace)) :
    commit.before = current employees trace ∧
      commit.before.commit P commit.changes = .ok commit.after ∧
      ∃ snapshot ∈ snapshots employees trace,
        commit.operation.body snapshot = .ok (commit.reply, commit.changes) := by
  obtain ⟨snapshot, hsnapshot, changes, after, hbody, hcommit, heq⟩ := h
  have hhead := (List.cons.inj heq).1
  have hbefore : commit.before = current employees trace := by rw [hhead]
  have hchanges : commit.changes = changes := by rw [hhead]
  have hafter : commit.after = after := by rw [hhead]
  rw [hbefore, hchanges, hafter]
  exact ⟨rfl, hcommit, snapshot, hsnapshot, hbody⟩

/-- A failed operation leaves the database as it is. -/
theorem transact_error {α : Type} {db snapshot db' : Database} {e : Failure}
    {body : Database → Except Failure (α × Database.Changes)}
    (h : db.transact P snapshot body = (.error e, db')) : db' = db := by
  unfold Database.transact at h
  split at h
  · exact (Prod.mk.inj h).2.symm
  · split at h
    · exact (Prod.mk.inj h).2.symm
    · exact absurd (Prod.mk.inj h).1 (by simp)

/-- A transaction that succeeds is a step. -/
theorem transact_ok {α : Type} {db snapshot db' : Database} {result : α}
    {body : Database → Except Failure (α × Database.Changes)}
    (h : db.transact P snapshot body = (.ok result, db')) :
    ∃ changes, body snapshot = .ok (result, changes) ∧ db.commit P changes = .ok db' := by
  unfold Database.transact at h
  split at h
  · exact absurd (Prod.mk.inj h).1 (by simp)
  · rename_i result' changes hbody
    split at h
    · exact absurd (Prod.mk.inj h).1 (by simp)
    · rename_i db'' hcommit
      obtain ⟨hresult, rfl⟩ := Prod.mk.inj h
      cases hresult
      exact ⟨changes, hbody, hcommit⟩

end ReceiptReview
