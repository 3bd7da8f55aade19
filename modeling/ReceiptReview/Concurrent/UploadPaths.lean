import ReceiptReview.Program.Transcript
import ReceiptReview.Service.Upload

/-!
# The paths of an upload

What an upload requests, and what its transcript says about its outcome.  It
commits at most one transaction, and only under the lock: `createQueued` with the
rows of its own image, or `markDuplicate` of a receipt of the caller that was
found by the image after the key had not been found.  It returns a receipt only
after it has checked the owner.

Nothing here mentions the database.  The answers are arbitrary, except that no
request throws the exception that the upload itself throws for a conflict.
-/

namespace ReceiptReview

open Java Store

abbrev UploadExchange : Type := Exchange UploadRequest UploadRequest.Answer

abbrev UploadTranscript : Type := Transcript UploadRequest UploadRequest.Answer

namespace UploadTranscript

/-- A transaction of the upload has committed. -/
def commits : UploadExchange → Bool
  | ⟨.createQueued _ _ _ _, .ok _⟩ | ⟨.markDuplicate _, .ok _⟩ => true
  | _ => false

/-- The transactions that the upload has committed, the newest first. -/
def committed (past : UploadTranscript) : UploadTranscript := past.filter commits

/-- The request was answered with this result. -/
def Answered (past : UploadTranscript) (request : UploadRequest) (result : request.Result) : Prop :=
  (⟨request, .ok result⟩ : UploadExchange) ∈ past

/-- The lock was acquired and is not released yet. -/
def Holding : UploadTranscript → Prop
  | [] => False
  | ⟨.tryLock _, .ok .acquired⟩ :: _ => True
  | ⟨.unlock _, _⟩ :: _ => False
  | _ :: past => Holding past

/-- The receipt that a query has found, by the key or by the image. -/
def finds : UploadExchange → Option Receipt
  | ⟨.findReceiptById _, .ok found⟩ | ⟨.findByCompanyIdAndImageSha256 _ _, .ok found⟩ => found
  | _ => none

/-- A receipt of another owner was found. -/
def Met (ownerId : Option Long) (past : UploadTranscript) : Prop :=
  ∃ exchange ∈ past, ∃ receipt, finds exchange = some receipt ∧ receipt.ownerEmployeeId ≠ ownerId

instance (ownerId : Option Long) (past : UploadTranscript) : Decidable (Met ownerId past) :=
  decidable_of_iff (past.any fun exchange => (finds exchange).any (·.ownerEmployeeId ≠ ownerId))
    (by simp [Met, Option.any_eq_true])

variable {past : UploadTranscript} {exchange : UploadExchange} {ownerId : Option Long}

theorem Answered.cons {request : UploadRequest} {result : request.Result}
    (h : Answered past request result) : Answered (exchange :: past) request result :=
  List.mem_cons_of_mem _ h

theorem committed_cons_of_not (h : commits exchange = false) :
    committed (exchange :: past) = committed past :=
  List.filter_cons_of_neg (by simp [h])

theorem committed_cons_of_commits (h : commits exchange = true) :
    committed (exchange :: past) = exchange :: committed past :=
  List.filter_cons_of_pos h

theorem met_cons : Met ownerId (exchange :: past) ↔
    (∃ receipt, finds exchange = some receipt ∧ receipt.ownerEmployeeId ≠ ownerId) ∨
      Met ownerId past := by
  simp [Met]

/-- An exchange that finds nothing, or a receipt of the caller. -/
theorem met_cons_of_finds
    (h : ∀ receipt, finds exchange = some receipt → receipt.ownerEmployeeId = ownerId) :
    Met ownerId (exchange :: past) ↔ Met ownerId past := by
  rw [met_cons, or_iff_right]
  intro hfound
  obtain ⟨receipt, hfinds, hother⟩ := hfound
  exact hother (h receipt hfinds)

theorem met_cons_of_none (h : finds exchange = none) :
    Met ownerId (exchange :: past) ↔ Met ownerId past :=
  met_cons_of_finds (by simp [h])

end UploadTranscript

open UploadTranscript ReceiptUploadService

/-- The exceptions for a conflict are those of the upload itself. -/
def UploadRequest.Possible (request : UploadRequest) (answer : request.Answer) : Prop :=
  ∀ e, answer = .error e → e.isConflict = false

/-- The upload refuses the file itself. -/
def Failure.isRejection : Failure → Bool
  | illegalArgument _ | unsupportedReceiptImage => true
  | _ => false

variable (P : Platform) (call : UploadCall)

/-- The key has just been looked up, and was not found. -/
def KeyUnknown (past : UploadTranscript) : Prop :=
  ∀ key, normalize call.idempotencyKey = some key → ∃ older,
    past = ⟨.findByCompanyIdAndIdempotencyKey call.companyId key, .ok none⟩ :: older ∧
      Holding older

/-- What an upload may request next. -/
def UploadAllows (past : UploadTranscript) : UploadRequest → Prop
  | .findByCompanyIdAndIdempotencyKey companyId idempotencyKey =>
      companyId = call.companyId ∧ normalize call.idempotencyKey = some idempotencyKey
  | .findByCompanyIdAndImageSha256 companyId imageSha256 =>
      companyId = call.companyId ∧ imageSha256 = P.sha256 call.bytes
  | .tryLock lockKey | .unlock lockKey =>
      lockKey = RedisDuplicateReceiptLock.lockKey call.companyId (P.sha256 call.bytes)
  | .findReceiptById _ | .findJobByReceiptId _ | .now | .store _ _ _ => True
  | .createQueued receipt _ idempotencyKey auditEvents =>
      Holding past ∧ committed past = [] ∧ ∃ contentType now,
        receipt = acceptedReceipt call.companyId (P.sha256 call.bytes) call.fileName contentType
          call.bytes.length call.ownerId now ∧
        idempotencyKey = normalize call.idempotencyKey ∧
        auditEvents = [uploadedEvent (P.sha256 call.bytes) call.fileName contentType
          call.bytes.length call.ownerId now]
  | .markDuplicate receiptId =>
      Holding past ∧ committed past = [] ∧ ∃ existing rest,
        past = ⟨.findByCompanyIdAndImageSha256 call.companyId (P.sha256 call.bytes),
          .ok (some existing)⟩ :: rest ∧
        receiptId = existing.id ∧ existing.ownerEmployeeId = call.ownerId ∧ KeyUnknown call rest

/-- A request failed after a transaction had committed. -/
def FailedLate (past : UploadTranscript) : Prop :=
  ∃ newer request e older,
    past = newer ++ (⟨request, .error e⟩ : UploadExchange) :: older ∧ committed older ≠ []

/-- How an upload ends. -/
inductive UploadEnds : Except Failure UploadResult → UploadTranscript → Prop
  | replayed {past : UploadTranscript} {key : JString} {record : IdempotencyRecord}
      {result : UploadResult} :
      normalize call.idempotencyKey = some key →
      Answered past (.findByCompanyIdAndIdempotencyKey call.companyId key) (some record) →
      Answered past (.findReceiptById record.receiptId) (some result.receipt) →
      result.receipt.ownerEmployeeId = call.ownerId →
      Answered past (.findJobByReceiptId result.receipt.id) (some result.job) →
      committed past = [] → result.created = false → result.idempotentReplay = true →
      UploadEnds (.ok result) past
  | processed {past : UploadTranscript} {result : UploadResult} :
      Answered past (.findByCompanyIdAndImageSha256 call.companyId (P.sha256 call.bytes))
        (some result.receipt) →
      result.receipt.ownerEmployeeId = call.ownerId →
      Answered past (.findJobByReceiptId result.receipt.id) (some result.job) →
      result.job.duplicateDetected = true → committed past = [] → result.created = false →
      result.idempotentReplay = false → UploadEnds (.ok result) past
  | marked {past : UploadTranscript} {existing : Receipt} {result : UploadResult} :
      Answered past (.findByCompanyIdAndImageSha256 call.companyId (P.sha256 call.bytes))
        (some existing) →
      existing.ownerEmployeeId = call.ownerId →
      Answered past (.findJobByReceiptId result.receipt.id) (some result.job) →
      committed past = [⟨.markDuplicate existing.id, .ok result.receipt⟩] →
      result.created = false → result.idempotentReplay = false → UploadEnds (.ok result) past
  | created {past : UploadTranscript} {imageStorageKey : JString} {contentType : Option JString}
      {now : Instant} {result : UploadResult} :
      committed past = [⟨.createQueued
        (acceptedReceipt call.companyId (P.sha256 call.bytes) call.fileName contentType
          call.bytes.length call.ownerId now) imageStorageKey (normalize call.idempotencyKey)
        [uploadedEvent (P.sha256 call.bytes) call.fileName contentType call.bytes.length
          call.ownerId now], .ok (result.receipt, result.job)⟩] →
      result.created = true → result.idempotentReplay = false → UploadEnds (.ok result) past
  | rejected {past : UploadTranscript} {e : Failure} :
      e.isRejection = true → committed past = [] → ¬ Met call.ownerId past →
      UploadEnds (.error e) past
  | conflict {past : UploadTranscript} {message : String} :
      committed past = [] → UploadEnds (.error (.receiptConflict message)) past
  -- a request has failed, and since then no receipt of another owner was found
  | failed {past newer older : UploadTranscript} {request : UploadRequest} {e : Failure} :
      past = newer ++ (⟨request, .error e⟩ : UploadExchange) :: older → e.isConflict = false →
      (committed past = [] ∨ FailedLate past) → (Met call.ownerId past → Met call.ownerId older) →
      UploadEnds (.error e) past
  -- the job of a receipt that was found before is missing
  | missing {past newer older : UploadTranscript} {found receipt : Receipt} {message : String} :
      past = newer ++ (⟨.findJobByReceiptId receipt.id, .ok none⟩ : UploadExchange) :: older →
      (∃ exchange ∈ older, finds exchange = some found) →
      (receipt = found ∨ Answered older (.markDuplicate found.id) receipt) →
      ¬ Met call.ownerId past → UploadEnds (.error (.illegalState message)) past
  | lost {past : UploadTranscript} {key : JString} {record : IdempotencyRecord} :
      Answered past (.findByCompanyIdAndIdempotencyKey call.companyId key) (some record) →
      Answered past (.findReceiptById record.receiptId) none → committed past = [] →
      ¬ Met call.ownerId past → UploadEnds (.error (.receiptNotFound record.receiptId)) past

/-- The outcome of a part of an upload that may accept the image. -/
def PartEnds (post : UploadTranscript → Prop) :
    Except Failure (Option UploadResult) → UploadTranscript → Prop
  | .ok none, past => post past
  | .ok (some result), past => UploadEnds P call (.ok result) past
  | .error e, past => UploadEnds P call (.error e) past

/-- The upload has not committed anything, and has met no receipt of another owner. -/
structure Unsettled (past : UploadTranscript) : Prop where
  committed : committed past = []
  unmet : ¬ Met call.ownerId past

abbrev uploadAlong {α : Type} (p : UploadProgram α)
    (post : Except Failure α → UploadTranscript → Prop) (past : UploadTranscript) : Prop :=
  Program.along UploadRequest.Possible (UploadAllows P call) p post past

variable {P call} {past : UploadTranscript} {exchange : UploadExchange}

/-! ## Steps of a transcript -/

/-- An exchange that commits nothing and finds no receipt of another owner. -/
theorem Unsettled.cons (h : Unsettled call past) (hcommits : commits exchange = false)
    (hfinds : ∀ receipt, finds exchange = some receipt →
      receipt.ownerEmployeeId = call.ownerId) : Unsettled call (exchange :: past) :=
  ⟨(committed_cons_of_not hcommits).trans h.committed, (met_cons_of_finds hfinds).not.mpr h.unmet⟩

/-- A request fails, and the upload with it. -/
theorem uploadEnds_failed {request : UploadRequest} {e : Failure}
    (he : request.Possible (.error e)) :
    UploadEnds P call (.error e) (⟨request, .error e⟩ :: past) := by
  have hcommits : commits ⟨request, .error e⟩ = false := by cases request <;> rfl
  have hfinds : finds ⟨request, .error e⟩ = none := by cases request <;> rfl
  refine @UploadEnds.failed P call _ [] past _ _ rfl (he e rfl) ?_ (met_cons_of_none hfinds).mp
  by_cases hcommitted : committed past = []
  · exact .inl ((committed_cons_of_not hcommits).trans hcommitted)
  · exact .inr ⟨[], request, e, past, rfl, hcommitted⟩

/-- What the upload has decided stands when the lock is released. -/
theorem UploadEnds.unlocked {outcome : Except Failure UploadResult} {lockKey : JString}
    (h : UploadEnds P call outcome past) :
    UploadEnds P call outcome (⟨.unlock lockKey, .ok ()⟩ :: past) := by
  -- the release commits nothing and finds no receipt
  have hcommitted : ∀ {past : UploadTranscript} {exchanges},
      committed past = exchanges →
      committed ((⟨.unlock lockKey, .ok ()⟩ : UploadExchange) :: past) = exchanges :=
    fun h => (committed_cons_of_not rfl).trans h
  have hunmet : ∀ {past}, ¬ Met call.ownerId past →
      ¬ Met call.ownerId ((⟨.unlock lockKey, .ok ()⟩ : UploadExchange) :: past) :=
    fun h => (met_cons_of_none rfl).not.mpr h
  cases h with
  | replayed hkey hrecord hreceipt howner hjob hnone hcreated hreplay =>
      exact .replayed hkey hrecord.cons hreceipt.cons howner hjob.cons (hcommitted hnone) hcreated
        hreplay
  | processed hreceipt howner hjob hflag hnone hcreated hreplay =>
      exact .processed hreceipt.cons howner hjob.cons hflag (hcommitted hnone) hcreated hreplay
  | marked hreceipt howner hjob hone hcreated hreplay =>
      exact .marked hreceipt.cons howner hjob.cons (hcommitted hone) hcreated hreplay
  | created hone hcreated hreplay => exact .created (hcommitted hone) hcreated hreplay
  | rejected he hnone hunmet' => exact .rejected he (hcommitted hnone) (hunmet hunmet')
  | conflict hnone => exact .conflict (hcommitted hnone)
  | @failed _ newer older request e hpast he hlate hmet =>
      refine @UploadEnds.failed P call _ (⟨.unlock lockKey, .ok ()⟩ :: newer) older _ _
        (congrArg _ hpast) he ?_ (fun h => hmet ((met_cons_of_none rfl).mp h))
      rcases hlate with hnone | ⟨newer', request', e', older', hsplit, hcommitted'⟩
      · exact .inl (hcommitted hnone)
      · exact .inr ⟨⟨.unlock lockKey, .ok ()⟩ :: newer', request', e', older', by rw [hsplit]; rfl,
          hcommitted'⟩
  | @missing _ newer older _ _ _ hpast hfound hreceipt hunmet' =>
      exact @UploadEnds.missing P call _ (⟨.unlock lockKey, .ok ()⟩ :: newer) older _ _ _
        (congrArg _ hpast) hfound hreceipt (hunmet hunmet')
  | lost hrecord hreceipt hnone hunmet' =>
      exact .lost hrecord.cons hreceipt.cons (hcommitted hnone) (hunmet hunmet')

/-! ## Parts of the program -/

theorem along_ask {request : UploadRequest} {post : Except Failure request.Result →
    UploadTranscript → Prop} (hallows : UploadAllows P call past request)
    (hok : ∀ result, post (.ok result) (⟨request, .ok result⟩ :: past))
    (herror : ∀ e, request.Possible (.error e) → post (.error e) (⟨request, .error e⟩ :: past)) :
    uploadAlong P call (ask request) post past := by
  refine ⟨hallows, fun answer hpossible => ?_⟩
  cases answer with
  | ok result => exact hok result
  | error e => exact herror e hpossible

/-- A request at the start of a part. -/
theorem along_ask_bind {α : Type} {request : UploadRequest}
    {next : request.Result → UploadProgram α}
    {post : Except Failure α → UploadTranscript → Prop} (hallows : UploadAllows P call past request)
    (hok : ∀ result, uploadAlong P call (next result) post (⟨request, .ok result⟩ :: past))
    (herror : ∀ e, request.Possible (.error e) → post (.error e) (⟨request, .error e⟩ :: past)) :
    uploadAlong P call (ask request >>= next) post past := by
  rw [uploadAlong, Program.along_bind]
  exact along_ask hallows hok herror

theorem along_ensureOwner {receipt : Receipt} {post : Except Failure Unit → UploadTranscript → Prop}
    (howner : receipt.ownerEmployeeId = call.ownerId → post (.ok ()) past)
    (hother : receipt.ownerEmployeeId ≠ call.ownerId →
      ∀ message, post (.error (.receiptConflict message)) past) :
    uploadAlong P call (ensureOwner receipt call.ownerId) post past := by
  unfold ensureOwner
  by_cases hsame : receipt.ownerEmployeeId = call.ownerId
  · rw [if_neg (by simpa using hsame)]
    exact howner hsame
  · rw [if_pos hsame]
    exact hother hsame _

/-- The job of the receipt is found, or it is missing, or the query fails. -/
theorem along_existingResult {receipt : Receipt} {idempotentReplay : Bool}
    {post : Except Failure UploadResult → UploadTranscript → Prop}
    (hfound : ∀ job, post (.ok { receipt, job, created := false, idempotentReplay })
      (⟨.findJobByReceiptId receipt.id, .ok (some job)⟩ :: past))
    (hmissing : ∀ message, post (.error (.illegalState message))
      (⟨.findJobByReceiptId receipt.id, .ok none⟩ :: past))
    (herror : ∀ e, (UploadRequest.findJobByReceiptId receipt.id).Possible (.error e) →
      post (.error e) (⟨.findJobByReceiptId receipt.id, .error e⟩ :: past)) :
    uploadAlong P call (existingResult receipt idempotentReplay) post past := by
  unfold existingResult
  refine along_ask_bind trivial (fun job => ?_) herror
  cases job with
  | none => exact hmissing _
  | some job => exact hfound job

/-- After the key was looked up in vain. -/
structure Looked (call : UploadCall) (before past : UploadTranscript) : Prop where
  since : before <:+ past
  unsettled : Unsettled call past
  holding : Holding before → Holding past ∧ KeyUnknown call past

theorem along_findIdempotentReplay (h : Unsettled call past) :
    uploadAlong P call
      (findIdempotentReplay call.companyId (normalize call.idempotencyKey) call.ownerId)
      (PartEnds P call (Looked call past)) past := by
  cases hkey : normalize call.idempotencyKey with
  | none =>
      -- without a key nothing is looked up
      refine ⟨List.suffix_rfl, h, fun hholding => ⟨hholding, fun key hsome => ?_⟩⟩
      rw [hkey] at hsome
      exact absurd hsome (by simp)
  | some key =>
      refine along_ask_bind ⟨rfl, hkey⟩ (fun found => ?_) fun e he => uploadEnds_failed he
      cases found with
      | none =>
          -- the key is not in use, and the call goes on
          refine ⟨List.suffix_cons _ _, h.cons rfl (by simp [finds]),
            fun hholding => ⟨hholding, fun key' hsome => ?_⟩⟩
          rw [hkey] at hsome
          cases hsome
          exact ⟨past, rfl, hholding⟩
      | some record =>
          have h₁ : Unsettled call (⟨.findByCompanyIdAndIdempotencyKey call.companyId key,
              .ok (some record)⟩ :: past) := h.cons rfl (by simp [finds])
          show uploadAlong P call (_ >>= _) _ _
          rw [uploadAlong, Program.along_bind]
          unfold findReceipt
          refine along_ask_bind trivial (fun found => ?_) fun e he => uploadEnds_failed he
          cases found with
          | none =>
              -- the record names a receipt that is not there
              have h₂ : Unsettled call (⟨.findReceiptById record.receiptId, .ok none⟩ :: _) :=
                h₁.cons rfl (by simp [finds])
              exact .lost (Answered.cons List.mem_cons_self) List.mem_cons_self h₂.committed
                h₂.unmet
          | some receipt =>
              show uploadAlong P call (_ >>= _) _ _
              rw [uploadAlong, Program.along_bind]
              refine along_ensureOwner (fun howner => ?_) fun _ message =>
                .conflict ((committed_cons_of_not rfl).trans h₁.committed)
              have h₂ : Unsettled call
                  (⟨.findReceiptById record.receiptId, .ok (some receipt)⟩ :: _) :=
                h₁.cons rfl (by rintro _ ⟨⟩; exact howner)
              show uploadAlong P call (_ >>= _) _ _
              rw [uploadAlong, Program.along_bind]
              refine along_existingResult (fun job => ?_) (fun message => ?_) fun e he =>
                uploadEnds_failed he
              · exact .replayed hkey (Answered.cons (Answered.cons List.mem_cons_self))
                  (Answered.cons List.mem_cons_self) howner List.mem_cons_self
                  ((committed_cons_of_not rfl).trans h₂.committed) rfl rfl
              · exact @UploadEnds.missing P call _ [] _ receipt receipt _ rfl
                  ⟨_, List.mem_cons_self, rfl⟩ (.inl rfl) ((met_cons_of_none rfl).not.mpr h₂.unmet)

/-- The processed duplicate is returned without the lock. -/
theorem along_findProcessedDuplicate (hcommitted : committed past = []) :
    uploadAlong P call
      (findProcessedDuplicate call.companyId (P.sha256 call.bytes) call.ownerId)
      (PartEnds P call fun past' => committed past' = [] ∧
        (¬ Met call.ownerId past → ¬ Met call.ownerId past')) past := by
  refine along_ask_bind ⟨rfl, rfl⟩ (fun found => ?_) fun e he => uploadEnds_failed he
  have hcommitted₁ : committed ((⟨.findByCompanyIdAndImageSha256 call.companyId
      (P.sha256 call.bytes), .ok found⟩ : UploadExchange) :: past) = [] :=
    (committed_cons_of_not rfl).trans hcommitted
  cases found with
  | none => exact ⟨hcommitted₁, (met_cons_of_none rfl).not.mpr⟩
  | some receipt =>
      show uploadAlong P call (_ >>= _) _ _
      rw [uploadAlong, Program.along_bind]
      -- a receipt of another owner is a conflict
      refine along_ensureOwner (fun howner => ?_) fun _ message => .conflict hcommitted₁
      refine along_ask_bind trivial (fun job => ?_) fun e he => uploadEnds_failed he
      have hcommitted₂ : committed ((⟨.findJobByReceiptId receipt.id, .ok job⟩ : UploadExchange) ::
          ⟨.findByCompanyIdAndImageSha256 call.companyId (P.sha256 call.bytes),
            .ok (some receipt)⟩ :: past) = [] := (committed_cons_of_not rfl).trans hcommitted₁
      have hunmet : ¬ Met call.ownerId past → ¬ Met call.ownerId (⟨.findJobByReceiptId receipt.id,
          .ok job⟩ :: ⟨.findByCompanyIdAndImageSha256 call.companyId (P.sha256 call.bytes),
          .ok (some receipt)⟩ :: past) := fun hunmet =>
        (met_cons_of_none rfl).not.mpr ((met_cons_of_finds (by
          rintro _ ⟨⟩
          exact howner)).not.mpr hunmet)
      cases job with
      | none => exact ⟨hcommitted₂, hunmet⟩
      | some job =>
          -- only a receipt that is flagged already is returned without the lock
          by_cases hflag : job.duplicateDetected = true
          · simp only [hflag, if_true]
            exact .processed (Answered.cons List.mem_cons_self) howner List.mem_cons_self hflag
              hcommitted₂ rfl rfl
          · simp only [hflag]
            exact ⟨hcommitted₂, hunmet⟩

/-- The image was found after the key was not. -/
theorem along_acceptDuplicate {existing : Receipt} (h : Unsettled call past)
    (hholding : Holding past) (hkey : KeyUnknown call past) :
    uploadAlong P call (acceptDuplicate existing call.ownerId) (UploadEnds P call)
      (⟨.findByCompanyIdAndImageSha256 call.companyId (P.sha256 call.bytes),
        .ok (some existing)⟩ :: past) := by
  unfold acceptDuplicate
  rw [uploadAlong, Program.along_bind]
  refine along_ensureOwner (fun howner => ?_) fun _ message =>
    .conflict ((committed_cons_of_not rfl).trans h.committed)
  have h₁ : Unsettled call (⟨.findByCompanyIdAndImageSha256 call.companyId (P.sha256 call.bytes),
      .ok (some existing)⟩ :: past) := h.cons rfl (by rintro _ ⟨⟩; exact howner)
  refine along_ask_bind ⟨hholding, h₁.committed, existing, past, rfl, rfl, howner, hkey⟩
    (fun receipt => ?_) fun e he => uploadEnds_failed he
  refine along_existingResult (fun job => ?_) (fun message => ?_) fun e he => uploadEnds_failed he
  · refine .marked (Answered.cons (Answered.cons List.mem_cons_self)) howner List.mem_cons_self ?_
      rfl rfl
    rw [committed_cons_of_not rfl, committed_cons_of_commits rfl, h₁.committed]
  · exact @UploadEnds.missing P call _ [] _ existing receipt _ rfl
      ⟨_, List.mem_cons_of_mem _ List.mem_cons_self, rfl⟩ (.inr List.mem_cons_self)
      ((met_cons_of_none rfl).not.mpr ((met_cons_of_none rfl).not.mpr h₁.unmet))

/-- A unique constraint was violated, so somebody else was faster. -/
theorem along_resolveConstraintConflict {request : UploadRequest}
    (h : Unsettled call (⟨request, .error .dataIntegrityViolation⟩ :: past))
    (hholding : Holding ((⟨request, .error .dataIntegrityViolation⟩ : UploadExchange) :: past)) :
    uploadAlong P call
      (resolveConstraintConflict call.companyId (P.sha256 call.bytes)
        (normalize call.idempotencyKey) call.ownerId) (UploadEnds P call)
      (⟨request, .error .dataIntegrityViolation⟩ :: past) := by
  unfold resolveConstraintConflict
  rw [uploadAlong, Program.along_bind]
  refine Program.along_mono (along_findIdempotentReplay h) ?_
  intro outcome past₁ hpost
  rcases outcome with e | _ | replay
  · exact hpost
  · obtain ⟨hholding₁, hkey⟩ := hpost.holding hholding
    refine along_ask_bind ⟨rfl, rfl⟩ (fun found => ?_) fun e he => uploadEnds_failed he
    cases found with
    | none =>
        -- the exception of the violation is thrown again
        obtain ⟨newer, hsplit⟩ := hpost.since
        have h₂ : Unsettled call (⟨.findByCompanyIdAndImageSha256 call.companyId
            (P.sha256 call.bytes), .ok none⟩ :: past₁) :=
          hpost.unsettled.cons rfl (by simp [finds])
        exact @UploadEnds.failed P call _ (_ :: newer) past request _ (congrArg _ hsplit.symm) rfl
          (.inl h₂.committed) (fun hmet => absurd hmet h₂.unmet)
    | some existing => exact along_acceptDuplicate hpost.unsettled hholding₁ hkey
  · exact hpost

theorem along_createReceipt (h : Unsettled call past) (hholding : Holding past)
    {imageStorageKey : JString} {contentType : Option JString} {now : Instant} :
    uploadAlong P call
      (createReceipt call.companyId (P.sha256 call.bytes) imageStorageKey
        (normalize call.idempotencyKey)
        (acceptedReceipt call.companyId (P.sha256 call.bytes) call.fileName contentType
          call.bytes.length call.ownerId now)
        (uploadedEvent (P.sha256 call.bytes) call.fileName contentType call.bytes.length
          call.ownerId now) call.ownerId) (UploadEnds P call) past := by
  unfold createReceipt
  rw [uploadAlong, Program.along_tryCatch]
  refine along_ask_bind ⟨hholding, h.committed, contentType, now, rfl, rfl, rfl⟩ (fun pair => ?_)
    fun e he => ?_
  · refine @UploadEnds.created P call _ imageStorageKey contentType now _ ?_ rfl rfl
    rw [committed_cons_of_commits rfl, h.committed]
  · cases e with
    | dataIntegrityViolation =>
        exact along_resolveConstraintConflict (h.cons rfl (by simp [finds])) hholding
    | _ => exact uploadEnds_failed he

theorem along_acceptWhileLocked (h : Unsettled call past) (hholding : Holding past)
    {contentType : Option JString} :
    uploadAlong P call
      (acceptWhileLocked call.companyId (normalize call.idempotencyKey) call.fileName contentType
        call.bytes (P.sha256 call.bytes) call.ownerId) (UploadEnds P call) past := by
  unfold acceptWhileLocked
  rw [uploadAlong, Program.along_bind]
  refine Program.along_mono (along_findIdempotentReplay h) ?_
  intro outcome past₁ hpost
  rcases outcome with e | _ | replay
  · exact hpost
  · obtain ⟨hholding₁, hkey⟩ := hpost.holding hholding
    refine along_ask_bind ⟨rfl, rfl⟩ (fun found => ?_) fun e he => uploadEnds_failed he
    cases found with
    | some existing => exact along_acceptDuplicate hpost.unsettled hholding₁ hkey
    | none =>
        have h₂ : Unsettled call (⟨.findByCompanyIdAndImageSha256 call.companyId
            (P.sha256 call.bytes), .ok none⟩ :: past₁) :=
          hpost.unsettled.cons rfl (by simp [finds])
        refine along_ask_bind trivial (fun now => ?_) fun e he => uploadEnds_failed he
        have h₃ : Unsettled call (⟨.now, .ok now⟩ :: _) := h₂.cons rfl (by simp [finds])
        refine along_ask_bind trivial (fun imageStorageKey => ?_) fun e he => uploadEnds_failed he
        have h₄ : Unsettled call (⟨.store call.companyId (P.sha256 call.bytes) call.bytes,
            .ok imageStorageKey⟩ :: _) := h₃.cons rfl (by simp [finds])
        exact along_createReceipt h₄ hholding₁
  · exact hpost

/-- The lock may fail to be acquired, and its release may fail. -/
theorem along_execute {action : UploadProgram UploadResult} (h : Unsettled call past)
    (haction : ∀ past', Unsettled call past' → Holding past' →
      uploadAlong P call action (UploadEnds P call) past') :
    uploadAlong P call
      (RedisDuplicateReceiptLock.execute call.companyId (P.sha256 call.bytes) action)
      (UploadEnds P call) past := by
  unfold RedisDuplicateReceiptLock.execute
  refine along_ask_bind rfl (fun outcome => ?_) fun e he => uploadEnds_failed he
  cases outcome with
  | interrupted | timedOut => exact .conflict ((committed_cons_of_not rfl).trans h.committed)
  | acquired =>
      show uploadAlong P call (Program.tryFinally _ _) _ _
      rw [uploadAlong, Program.along_tryFinally]
      refine Program.along_mono (haction _ (h.cons rfl (by simp [finds])) trivial) ?_
      intro outcome past₁ hends
      exact along_ask_bind rfl (fun _ => hends.unlocked) fun e he => uploadEnds_failed he

/-- After a conflict the upload still returns a duplicate that has been processed. -/
theorem along_convergence {exception : Failure} (h : UploadEnds P call (.error exception) past) :
    uploadAlong P call
      (match exception with
      | .receiptConflict message => do
          let found ← findProcessedDuplicate call.companyId (P.sha256 call.bytes) call.ownerId
          required found (.receiptConflict message)
      | exception => Program.throw exception) (UploadEnds P call) past := by
  cases exception with
  | receiptConflict message =>
      have hcommitted : committed past = [] := by
        cases h with
        | rejected he => exact absurd he (by simp [Failure.isRejection])
        | conflict hnone => exact hnone
        | failed _ he => exact absurd he (by simp [Failure.isConflict])
      rw [uploadAlong, Program.along_bind]
      refine Program.along_mono (along_findProcessedDuplicate hcommitted) ?_
      intro outcome past₁ hpost
      rcases outcome with e | _ | result
      · exact hpost
      · exact .conflict hpost.1
      · exact hpost
  | _ => exact h

theorem rejection_of_detect {e : Failure} (h : ReceiptImageFormat.detect call.bytes = .error e) :
    e.isRejection = true := by
  unfold ReceiptImageFormat.detect at h
  split at h
  · cases h
  · split at h
    · cases h
    · cases h
      rfl

theorem along_upload :
    uploadAlong P call (upload P call) (UploadEnds P call) [] := by
  have hstart : Unsettled call [] := ⟨rfl, by simp [Met]⟩
  unfold upload
  split
  · exact .rejected rfl rfl hstart.unmet
  · cases hdetect : ReceiptImageFormat.detect call.bytes with
    | error e => exact .rejected (rejection_of_detect hdetect) rfl hstart.unmet
    | ok format =>
        rw [uploadAlong, Program.along_bind, Program.along_ofExcept]
        show uploadAlong P call (_ >>= _) _ _
        rw [uploadAlong, Program.along_bind]
        refine Program.along_mono (along_findIdempotentReplay hstart) ?_
        intro outcome past₁ hpost
        rcases outcome with e | _ | replay
        · exact hpost
        · have h₁ := hpost.unsettled
          show uploadAlong P call (_ >>= _) _ _
          rw [uploadAlong, Program.along_bind]
          refine Program.along_mono (along_findProcessedDuplicate h₁.committed) ?_
          intro outcome past₂ hpost
          rcases outcome with e | _ | processedDuplicate
          · exact hpost
          · -- neither lookup has answered: the image is accepted under the lock
            have h₂ : Unsettled call past₂ := ⟨hpost.1, hpost.2 h₁.unmet⟩
            show uploadAlong P call (Program.tryCatch _ _) _ _
            rw [uploadAlong, Program.along_tryCatch]
            refine Program.along_mono (along_execute h₂ fun _ h hholding =>
              along_acceptWhileLocked h hholding) ?_
            intro outcome past₃ hends
            rcases outcome with e | result
            · exact along_convergence hends
            · exact hends
          · exact hpost
        · exact hpost

/-! ## The lookups -/

/-- The request concerns what is stored already: it looks for it, or marks it. -/
def UploadRequest.ConcernsStored : UploadRequest → Prop
  | findByCompanyIdAndIdempotencyKey _ _ | findByCompanyIdAndImageSha256 _ _ | findReceiptById _
  | findJobByReceiptId _ | markDuplicate _ => True
  | tryLock _ | unlock _ | now | store _ _ _ | createQueued _ _ _ _ => False

abbrev LooksUp {α : Type} (p : UploadProgram α) : Prop :=
  p.Requests UploadRequest.ConcernsStored

section LooksUp

variable {α β : Type}

theorem requests_ask {allowed : UploadRequest → Prop} {request : UploadRequest}
    {f : request.Result → UploadProgram β} (h : allowed request)
    (hf : ∀ result, (f result).Requests allowed) : (ask request >>= f).Requests allowed :=
  Program.requests_bind ⟨h, fun _ => trivial⟩ hf

theorem looksUp_ensureOwner (receipt : Receipt) (ownerId : Option Long) :
    LooksUp (ensureOwner receipt ownerId) := by
  unfold ensureOwner
  split <;> trivial

theorem looksUp_existingResult (receipt : Receipt) (idempotentReplay : Bool) :
    LooksUp (existingResult receipt idempotentReplay) :=
  requests_ask trivial fun _ => Program.requests_bind trivial fun _ => trivial

theorem looksUp_findIdempotentReplay (companyId : JString) (idempotencyKey : Option JString)
    (ownerId : Option Long) :
    LooksUp (findIdempotentReplay companyId idempotencyKey ownerId) := by
  cases idempotencyKey with
  | none => trivial
  | some idempotencyKey =>
      refine requests_ask trivial fun found => ?_
      cases found with
      | none => trivial
      | some record =>
          refine Program.requests_bind (requests_ask trivial fun _ => trivial) fun receipt => ?_
          refine Program.requests_bind (looksUp_ensureOwner _ _) fun _ => ?_
          exact Program.requests_bind (looksUp_existingResult _ _) fun _ => trivial

theorem looksUp_findProcessedDuplicate (companyId imageSha256 : JString)
    (ownerId : Option Long) :
    LooksUp (findProcessedDuplicate companyId imageSha256 ownerId) := by
  refine requests_ask trivial fun found => ?_
  cases found with
  | none => trivial
  | some receipt =>
      refine Program.requests_bind (looksUp_ensureOwner _ _) fun _ => ?_
      refine requests_ask trivial fun found => ?_
      cases found with
      | none => trivial
      | some job =>
          show LooksUp (if job.duplicateDetected = true then _ else _)
          split <;> trivial

theorem looksUp_acceptDuplicate (existing : Receipt) (ownerId : Option Long) :
    LooksUp (acceptDuplicate existing ownerId) :=
  Program.requests_bind (looksUp_ensureOwner _ _) fun _ =>
    requests_ask trivial fun _ => looksUp_existingResult _ _

theorem looksUp_resolveConstraintConflict (companyId imageSha256 : JString)
    (idempotencyKey : Option JString) (ownerId : Option Long) :
    LooksUp (resolveConstraintConflict companyId imageSha256 idempotencyKey ownerId) := by
  refine Program.requests_bind (looksUp_findIdempotentReplay _ _ _) fun replay => ?_
  cases replay with
  | some replay => trivial
  | none =>
      refine requests_ask trivial fun found => ?_
      exact Program.requests_bind trivial fun existing => looksUp_acceptDuplicate _ _

end LooksUp

end ReceiptReview
