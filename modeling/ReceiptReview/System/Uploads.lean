import ReceiptReview.System.Operation

/-!
# Uploads in the running system

The environment of one upload call.  Its queries read the database as it is, its
two transactions are commits of the run like any other, and between any two of
its requests the rest of the system may extend the run.  The lock, the clock and
the storage answer anything.  Any request may also fail without an effect, though
not with the exception that the upload itself throws for a conflict.

Besides the run, the state remembers two things about the call: its own commits,
and the databases in which it has looked up its idempotency key.
-/

namespace ReceiptReview

open Java Store

structure UploadState where
  trace : List Commit
  own : List Commit
  keyLookups : List Database

namespace UploadState

/-- The state in which a call starts. -/
def start (trace : List Commit) : UploadState where
  trace := trace
  own := []
  keyLookups := []

/-- The call has committed a transaction. -/
def committed (s : UploadState) (commit : Commit) : UploadState :=
  { s with trace := commit :: s.trace, own := commit :: s.own }

end UploadState

variable (P : Platform) (employees : Table Employee)

/-- The call commits an operation, from any snapshot. -/
def Commits (s : UploadState) (operation : Operation) (reply : Reply) (s' : UploadState) : Prop :=
  ∃ snapshot ∈ snapshots employees s.trace, ∃ changes after,
    operation.body snapshot = .ok (reply, changes) ∧
    (current employees s.trace).commit P changes = .ok after ∧
    s' = s.committed { operation, reply, changes, before := current employees s.trace, after }

/-- A request of an upload returns. -/
def Returns (s : UploadState) (request : UploadRequest) (result : request.Result)
    (s' : UploadState) : Prop :=
  let db := current employees s.trace
  match request, result with
  | .findByCompanyIdAndIdempotencyKey companyId idempotencyKey, found =>
      found = db.findByCompanyIdAndIdempotencyKey P companyId idempotencyKey ∧
        s' = { s with keyLookups := db :: s.keyLookups }
  | .findByCompanyIdAndImageSha256 companyId imageSha256, found =>
      found = db.findByCompanyIdAndImageSha256 P companyId imageSha256 ∧ s' = s
  | .findReceiptById id, found => found = db.findReceipt id ∧ s' = s
  | .findJobByReceiptId receiptId, found => found = db.findJobByReceiptId receiptId ∧ s' = s
  | .tryLock _, _ | .unlock _, _ | .now, _ | .store _ _ _, _ => s' = s
  | .createQueued receipt imageStorageKey idempotencyKey auditEvents, (created, job) =>
      ∃ receiptId jobId createdAt recordedAt,
        Commits P employees s (.createQueued receipt imageStorageKey idempotencyKey auditEvents
          receiptId jobId createdAt recordedAt) (.created created job) s'
  | .markDuplicate receiptId, receipt =>
      ∃ now today, Commits P employees s (.markDuplicate receiptId now today) (.receipt receipt) s'

/-- A request of an upload is answered. -/
def Answers (s : UploadState) (request : UploadRequest) (answer : request.Answer)
    (s' : UploadState) : Prop :=
  match answer with
  | .ok result => Returns P employees s request result s'
  | .error e => e.isConflict = false ∧ s' = s

/-- The rest of the system goes on. -/
def Others (s s' : UploadState) : Prop :=
  (Run P employees s.trace → Run P employees s'.trace) ∧ s.trace <:+ s'.trace ∧
    s'.own = s.own ∧ s'.keyLookups = s.keyLookups

/-- An upload call that starts at one moment of a run and ends at another. -/
def Uploads (trace : List Commit) (call : UploadCall) (result : Except Failure UploadResult)
    (s' : UploadState) : Prop :=
  Program.Executes (Answers P employees) (Others P employees) (.start trace)
    (ReceiptUploadService.upload P call) result s'

variable {P employees}

/-- An answered request adds the same commits to the run and to those of the call. -/
theorem Answers.frame {s s' : UploadState} {request : UploadRequest} {answer : request.Answer}
    (h : Answers P employees s request answer s') :
    ∃ commits, s'.trace = commits ++ s.trace ∧ s'.own = commits ++ s.own := by
  cases answer with
  | error e =>
      obtain ⟨-, rfl⟩ := h
      exact ⟨[], rfl, rfl⟩
  | ok result =>
      cases request with
      | createQueued receipt imageStorageKey idempotencyKey auditEvents =>
          obtain ⟨_, _, _, _, _, _, _, _, _, _, rfl⟩ := h
          exact ⟨[_], rfl, rfl⟩
      | markDuplicate receiptId =>
          obtain ⟨_, _, _, _, _, _, _, _, rfl⟩ := h
          exact ⟨[_], rfl, rfl⟩
      | findByCompanyIdAndIdempotencyKey | findByCompanyIdAndImageSha256 | findReceiptById
      | findJobByReceiptId =>
          obtain ⟨-, rfl⟩ := h
          exact ⟨[], rfl, rfl⟩
      | tryLock | unlock | now | store =>
          cases h
          exact ⟨[], rfl, rfl⟩

variable (P employees)

/-! ## A call that runs alone -/

/-- Commit an operation that reads the current database. -/
def commitNow (s : UploadState) (operation : Operation) : Option (Reply × UploadState) :=
  let before := current employees s.trace
  match operation.body before with
  | .error _ => none
  | .ok (reply, changes) =>
      match before.commit P changes with
      | .error _ => none
      | .ok after => some (reply, s.committed { operation, reply, changes, before, after })

/-- Answer a request at once; keys are drawn in the order of the commits, and
the lock is free. -/
def serve (request : UploadRequest) (s : UploadState) : request.Answer × UploadState :=
  let db := current employees s.trace
  match request with
  | .findByCompanyIdAndIdempotencyKey companyId idempotencyKey =>
      (.ok (db.findByCompanyIdAndIdempotencyKey P companyId idempotencyKey),
        { s with keyLookups := db :: s.keyLookups })
  | .findByCompanyIdAndImageSha256 companyId imageSha256 =>
      (.ok (db.findByCompanyIdAndImageSha256 P companyId imageSha256), s)
  | .findReceiptById id => (.ok (db.findReceipt id), s)
  | .findJobByReceiptId receiptId => (.ok (db.findJobByReceiptId receiptId), s)
  | .tryLock _ => (.ok .acquired, s)
  | .unlock _ => (.ok (), s)
  | .now => (.ok 0, s)
  | .store companyId imageSha256 _ => (.ok (companyId ++ imageSha256), s)
  | .createQueued receipt imageStorageKey idempotencyKey auditEvents =>
      let id := s.trace.length + 1
      match commitNow P employees s (.createQueued receipt imageStorageKey idempotencyKey
        auditEvents id id 0 0) with
      | some (.created created job, s') => (.ok (created, job), s')
      | _ => (.error .dataIntegrityViolation, s)
  | .markDuplicate receiptId =>
      match commitNow P employees s (.markDuplicate receiptId 0 0) with
      | some (.receipt receipt, s') => (.ok receipt, s')
      | _ => (.error .optimisticLockingFailure, s)

variable {P employees}

theorem commits_of_commitNow {s s' : UploadState} {operation : Operation} {reply : Reply}
    (h : commitNow P employees s operation = some (reply, s')) :
    Commits P employees s operation reply s' := by
  unfold commitNow at h
  simp only at h
  split at h
  · exact absurd h (by simp)
  · rename_i reply' changes hbody
    split at h
    · exact absurd h (by simp)
    · rename_i after hcommit
      cases h
      exact ⟨_, current_mem_snapshots _ _, changes, after, hbody, hcommit, rfl⟩

theorem answers_serve (s : UploadState) (request : UploadRequest) :
    Answers P employees s request (serve P employees request s).1
      (serve P employees request s).2 := by
  cases request with
  | createQueued receipt imageStorageKey idempotencyKey auditEvents =>
      unfold serve
      simp only
      split
      · rename_i hcommit
        exact ⟨_, _, _, _, commits_of_commitNow hcommit⟩
      · exact ⟨rfl, rfl⟩
  | markDuplicate receiptId =>
      unfold serve
      simp only
      split
      · rename_i hcommit
        exact ⟨_, _, commits_of_commitNow hcommit⟩
      · exact ⟨rfl, rfl⟩
  | findByCompanyIdAndIdempotencyKey | findByCompanyIdAndImageSha256 | findReceiptById
  | findJobByReceiptId => exact ⟨rfl, rfl⟩
  | tryLock | unlock | now | store => rfl

/-- The state and the outcome of an upload that runs alone. -/
def runUpload (P : Platform) (employees : Table Employee) (trace : List Commit)
    (call : UploadCall) : Except Failure UploadResult × UploadState :=
  (ReceiptUploadService.upload P call).run (serve P employees) (.start trace)

theorem uploads_runUpload {trace : List Commit} {call : UploadCall}
    {outcome : Except Failure UploadResult} (h : (runUpload P employees trace call).1 = outcome) :
    Uploads P employees trace call outcome (runUpload P employees trace call).2 := by
  subst h
  exact Program.executes_run (fun _ => ⟨id, List.suffix_rfl, rfl, rfl⟩) answers_serve _ _

end ReceiptReview
