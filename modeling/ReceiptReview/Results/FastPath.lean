import ReceiptReview.Service.ImageStorage
import ReceiptReview.Service.Upload
import ReceiptReview.System.Replay

/-!
# The fast path of an upload

Before an upload waits for the lock, it looks for the receipt of its key and for
a receipt of its image whose duplicate has been handled.  What it answers then is
what it would have answered under the lock: there it finds the same rows, and
marking the duplicate again does nothing.

The upload runs alone on a database and a bucket (`answerAlone`); this holds of
every database, whether or not a run reaches it.
-/

namespace ReceiptReview

open Java Store Outcome Program ReceiptUploadService ReceiptPersistenceService

/-! ## An upload that runs alone -/

structure StoreState where
  db : Database
  bucket : Bucket

/-- What the clock shows, and the keys that are generated. -/
structure Supply where
  now : Instant
  today : LocalDate
  recordedAt : Instant
  receiptId : Long
  jobId : Long

/-- Answer a request from the state as it is; the lock is granted. -/
def answerAlone (P : Platform) (storage : S3ReceiptImageStorage) (supply : Supply)
    (request : UploadRequest) (s : StoreState) : request.Answer × StoreState :=
  match request with
  | .findByCompanyIdAndIdempotencyKey companyId idempotencyKey =>
      (.ok (s.db.findByCompanyIdAndIdempotencyKey P companyId idempotencyKey), s)
  | .findByCompanyIdAndImageSha256 companyId imageSha256 =>
      (.ok (s.db.findByCompanyIdAndImageSha256 P companyId imageSha256), s)
  | .findReceiptById id => (.ok (s.db.receiptRow id), s)
  | .findJobByReceiptId receiptId => (.ok (s.db.findJobByReceiptId receiptId), s)
  | .tryLock _ => (.ok .acquired, s)
  | .unlock _ => (.ok (), s)
  | .now => (.ok supply.now, s)
  | .store companyId imageSha256 bytes =>
      let (stored, bucket) := storage.store P companyId imageSha256 bytes s.bucket
      (stored, { s with bucket })
  | .createQueued receipt imageStorageKey idempotencyKey auditEvents =>
      let (created, db) := s.db.transact P s.db fun _ =>
        createQueued receipt imageStorageKey idempotencyKey auditEvents supply.receiptId
          supply.jobId supply.now supply.recordedAt
      (created, { s with db })
  | .markDuplicate receiptId =>
      let (marked, db) := s.db.transact P s.db fun db =>
        markDuplicate db receiptId supply.now supply.today
      (marked, { s with db })

/-- What `upload` does before it waits for the lock. -/
def fastPath (P : Platform) (call : UploadCall) : UploadProgram (Option UploadResult) := do
  match ← findIdempotentReplay call.companyId (normalize call.idempotencyKey) call.ownerId with
  | some replay => return some replay
  | none => findProcessedDuplicate call.companyId (P.sha256 call.bytes) call.ownerId

/-- What `upload` does while it holds the lock. -/
def lockedPath (P : Platform) (call : UploadCall) (contentType : Option JString) :
    UploadProgram UploadResult :=
  acceptWhileLocked call.companyId (normalize call.idempotencyKey) call.fileName contentType
    call.bytes (P.sha256 call.bytes) call.ownerId

variable {P : Platform} {storage : S3ReceiptImageStorage} {supply : Supply} {s s' : StoreState}
variable {call : UploadCall} {contentType : Option JString}

/-- The two paths are the parts of `upload` for an image that is accepted. -/
theorem upload_eq {format : ReceiptImageFormat} (hbytes : call.bytes.isEmpty = false)
    (hformat : ReceiptImageFormat.detect call.bytes = .ok format) :
    upload P call = fastPath P call >>= fun answered =>
      match answered with
      | some result => return result
      | none =>
          Program.tryCatch
            (RedisDuplicateReceiptLock.execute call.companyId (P.sha256 call.bytes)
              (lockedPath P call (some format.contentType)))
            fun exception =>
              match exception with
              | .receiptConflict message => do
                  let found ← findProcessedDuplicate call.companyId (P.sha256 call.bytes)
                    call.ownerId
                  required found (.receiptConflict message)
              | exception => Program.throw exception := by
  unfold upload fastPath
  rw [if_neg (by simp [hbytes]), hformat]
  show (findIdempotentReplay _ _ _ >>= _) = _
  rw [bind_bind]
  refine congrArg (Bind.bind _) (funext fun replay => ?_)
  cases replay with
  | some result => rfl
  | none => rfl

@[simp] theorem run_ask {request : UploadRequest} :
    (ask request).run (answerAlone P storage supply) s =
      answerAlone P storage supply request s := by
  unfold ask
  rw [run_bind]
  cases hanswer : answerAlone P storage supply request s with
  | mk answer s' =>
      simp only [Program.request, run, hanswer]
      cases answer with
      | ok result => rfl
      | error e => rfl

/-- A run of `ensureOwner` checks the owner, whatever the state. -/
theorem run_ensureOwner {receipt : Receipt} {ownerId : Option Long} :
    (ensureOwner receipt ownerId).run (answerAlone P storage supply) s =
      (if receipt.ownerEmployeeId ≠ ownerId then
        .error (.receiptConflict "이미 사용 중인 이미지 또는 요청 키입니다.") else .ok (), s) := by
  unfold ensureOwner
  split <;> rfl

/-! ## Queries only read -/

/-- The program leaves the database and the bucket as they are. -/
def ReadsOnly {α : Type} (P : Platform) (storage : S3ReceiptImageStorage) (supply : Supply)
    (p : UploadProgram α) : Prop :=
  ∀ s, (p.run (answerAlone P storage supply) s).2 = s

theorem ReadsOnly.bind {α β : Type} {p : UploadProgram α} {f : α → UploadProgram β}
    (hp : ReadsOnly P storage supply p) (hf : ∀ a, ReadsOnly P storage supply (f a)) :
    ReadsOnly P storage supply (p >>= f) := by
  intro s
  have hthen := hp s
  rw [run_bind]
  cases hrun : p.run (answerAlone P storage supply) s with
  | mk outcome s' =>
      rw [hrun] at hthen
      obtain rfl : s' = s := hthen
      cases outcome with
      | ok a => exact hf a s'
      | error e => rfl

theorem readsOnly_done {α : Type} (outcome : Except Failure α) :
    ReadsOnly P storage supply (.done outcome) :=
  fun _ => rfl

theorem readsOnly_ask {request : UploadRequest}
    (h : ∀ s, (answerAlone P storage supply request s).2 = s) :
    ReadsOnly P storage supply (ask request) := by
  intro s
  rw [run_ask]
  exact h s

theorem readsOnly_ensureOwner (receipt : Receipt) (ownerId : Option Long) :
    ReadsOnly P storage supply (ensureOwner receipt ownerId) := by
  intro s
  rw [run_ensureOwner]

theorem readsOnly_existingResult (receipt : Receipt) (idempotentReplay : Bool) :
    ReadsOnly P storage supply (existingResult receipt idempotentReplay) :=
  (readsOnly_ask fun _ => rfl).bind fun _ => (readsOnly_done _).bind fun _ => readsOnly_done _

theorem readsOnly_findIdempotentReplay (companyId : JString) (idempotencyKey : Option JString)
    (ownerId : Option Long) :
    ReadsOnly P storage supply (findIdempotentReplay companyId idempotencyKey ownerId) := by
  cases idempotencyKey with
  | none => exact readsOnly_done _
  | some key =>
      refine (readsOnly_ask fun _ => rfl).bind fun found => ?_
      cases found with
      | none => exact readsOnly_done _
      | some record =>
          refine ReadsOnly.bind ?_ fun receipt => ?_
          · exact (readsOnly_ask fun _ => rfl).bind fun _ => readsOnly_done _
          · exact (readsOnly_ensureOwner _ _).bind fun _ =>
              (readsOnly_existingResult _ _).bind fun _ => readsOnly_done _

theorem readsOnly_findProcessedDuplicate (companyId imageSha256 : JString)
    (ownerId : Option Long) :
    ReadsOnly P storage supply (findProcessedDuplicate companyId imageSha256 ownerId) := by
  refine (readsOnly_ask fun _ => rfl).bind fun found => ?_
  cases found with
  | none => exact readsOnly_done _
  | some receipt =>
      refine (readsOnly_ensureOwner _ _).bind fun _ => (readsOnly_ask fun _ => rfl).bind ?_
      intro job
      cases job with
      | none => exact readsOnly_done _
      | some job =>
          show ReadsOnly _ _ _ (ite _ _ _)
          split <;> exact readsOnly_done _

/-! ## Marking a duplicate again -/

/-- A transaction without changes leaves the database as it is. -/
theorem Database.commit_nothing (P : Platform) (db : Database) : db.commit P {} = .ok db := by
  simp [Database.commit, Database.flush, Table.flush_nil, Database.record]

/-- A duplicate that has been handled is not marked again. -/
theorem answerAlone_markDuplicate {receipt : Receipt} {job : ReceiptExtractionJob}
    (hreceipt : s.db.findReceipt receipt.id = some receipt)
    (hjob : s.db.findJobByReceiptId receipt.id = some job) (hflag : job.duplicateDetected = true) :
    answerAlone P storage supply (.markDuplicate receipt.id) s = (.ok receipt, s) := by
  have hmark : markDuplicate s.db receipt.id supply.now supply.today = .ok (receipt, {}) := by
    simp [markDuplicate, hreceipt, hjob, hflag, orElseThrow, Bind.bind, Except.bind, Pure.pure,
      Except.pure]
  simp [answerAlone, Database.transact, hmark, Database.commit_nothing]

/-! ## The two paths -/

theorem map_some_ne_none {α : Type} {final : Except Failure α} :
    final.map some ≠ .ok none := by
  cases final <;> simp [Except.map]

theorem eq_ok_of_map_some {α : Type} {final : Except Failure α} {result : α}
    (h : final.map some = .ok (some result)) : final = .ok result := by
  cases final <;> simp_all [Except.map]

theorem eq_error_of_map_some {α : Type} {final : Except Failure α} {e : Failure}
    (h : final.map some = .error e) : final = .error e := by
  cases final <;> simp_all [Except.map]

/-- Looking up the handled duplicate of an image answers as accepting it under
the lock does, once the key is not bound. -/
theorem run_lockedPath_of_processed {final : Except Failure UploadResult}
    (hkey : (findIdempotentReplay call.companyId (normalize call.idempotencyKey) call.ownerId).run
      (answerAlone P storage supply) s = (.ok none, s))
    (hfast : (findProcessedDuplicate call.companyId (P.sha256 call.bytes) call.ownerId).run
      (answerAlone P storage supply) s = (final.map some, s')) :
    (lockedPath P call contentType).run (answerAlone P storage supply) s = (final, s) := by
  unfold lockedPath acceptWhileLocked
  rw [run_bind, hkey]
  simp only
  rw [run_bind, run_ask]
  unfold findProcessedDuplicate at hfast
  rw [run_bind, run_ask] at hfast
  simp only [answerAlone] at hfast ⊢
  cases hfound : s.db.findByCompanyIdAndImageSha256 P call.companyId (P.sha256 call.bytes) with
  | none =>
      rw [hfound] at hfast
      exact absurd (Prod.mk.inj hfast).1.symm map_some_ne_none
  | some receipt =>
      rw [hfound] at hfast
      simp only at hfast ⊢
      unfold acceptDuplicate
      rw [run_bind, run_ensureOwner] at hfast ⊢
      by_cases howner : receipt.ownerEmployeeId = call.ownerId
      · rw [if_neg (by simpa using howner)] at hfast ⊢
        simp only at hfast ⊢
        rw [run_bind, run_ask] at hfast ⊢
        simp only [answerAlone] at hfast
        have hreceipt : s.db.findReceipt receipt.id = some receipt := by
          obtain ⟨row, hrow, rfl⟩ := Option.map_eq_some_iff.mp hfound
          exact Database.findReceipt_of_receiptRow
            (Table.find?_of_mem (List.mem_of_find?_eq_some hrow))
        cases hjob : s.db.findJobByReceiptId receipt.id with
        | none =>
            rw [hjob] at hfast
            exact absurd (Prod.mk.inj hfast).1.symm map_some_ne_none
        | some job =>
            rw [hjob] at hfast
            by_cases hflag : job.duplicateDetected = true
            · simp only [hflag, if_true] at hfast
              -- both paths return the receipt with its job
              have hfinal : final = .ok
                  { receipt, job, created := false, idempotentReplay := false } :=
                eq_ok_of_map_some (Prod.mk.inj hfast).1.symm
              rw [answerAlone_markDuplicate hreceipt hjob hflag, hfinal]
              simp only
              unfold existingResult
              rw [run_bind, run_ask]
              simp only [answerAlone, hjob]
              rfl
            · simp only [hflag] at hfast
              exact absurd (Prod.mk.inj hfast).1.symm map_some_ne_none
      · rw [if_pos (by simpa using howner)] at hfast ⊢
        have hfinal : final = .error (.receiptConflict "이미 사용 중인 이미지 또는 요청 키입니다.") :=
          eq_error_of_map_some (Prod.mk.inj hfast).1.symm
        rw [hfinal]

/-- Whenever an upload is answered before it waits for the lock, by a result or
by an exception, it would have been answered so under the lock, and neither path
changes the database or the bucket.  This is what `upload` does with an image. -/
theorem fast_path_eq_locked_path (P : Platform) (storage : S3ReceiptImageStorage) (supply : Supply)
    (s s' : StoreState) (call : UploadCall) (contentType : Option JString)
    (final : Except Failure UploadResult)
    (hfast : (fastPath P call).run (answerAlone P storage supply) s = (final.map some, s')) :
    s' = s ∧ (lockedPath P call contentType).run (answerAlone P storage supply) s = (final, s) ∧
      ∀ format, call.bytes.isEmpty = false → ReceiptImageFormat.detect call.bytes = .ok format →
        (upload P call).run (answerAlone P storage supply) s = (final, s) := by
  -- both lookups leave the state as it is
  have hreads : ReadsOnly P storage supply (fastPath P call) := by
    refine (readsOnly_findIdempotentReplay _ _ _).bind fun replay => ?_
    cases replay with
    | some result => exact readsOnly_done _
    | none => exact readsOnly_findProcessedDuplicate _ _ _
  have hsame : s' = s := by rw [← hreads s, hfast]
  have hupload : ∀ format, call.bytes.isEmpty = false →
      ReceiptImageFormat.detect call.bytes = .ok format →
      (upload P call).run (answerAlone P storage supply) s = (final, s) := by
    intro format hbytes hformat
    rw [upload_eq hbytes hformat, run_bind, hfast, hsame]
    cases final <;> rfl
  refine ⟨hsame, ?_, hupload⟩
  -- under the lock the same lookup finds the same record
  have hkeyReads : ReadsOnly P storage supply (findIdempotentReplay call.companyId
      (normalize call.idempotencyKey) call.ownerId) := readsOnly_findIdempotentReplay _ _ _
  have hkeyReads := hkeyReads s
  unfold fastPath at hfast
  rw [run_bind] at hfast
  cases hkey : (findIdempotentReplay call.companyId (normalize call.idempotencyKey)
      call.ownerId).run (answerAlone P storage supply) s with
  | mk outcome s₁ =>
      rw [hkey] at hfast hkeyReads
      obtain rfl : s₁ = s := hkeyReads
      cases outcome with
      | ok replay =>
          cases replay with
          | none => exact run_lockedPath_of_processed hkey hfast
          | some result =>
              rw [eq_ok_of_map_some (Prod.mk.inj hfast).1.symm]
              unfold lockedPath acceptWhileLocked
              rw [run_bind, hkey]
              rfl
      | error e =>
          rw [eq_error_of_map_some (Prod.mk.inj hfast).1.symm]
          unfold lockedPath acceptWhileLocked
          rw [run_bind, hkey]

namespace Sample

/-- An image is submitted twice, so that its duplicate has been handled. -/
def duplicateTrace : List Commit :=
  (replay platform staff [] [intakeOf (uploadOf "key-1" imageA) 1 1 0, .markDuplicate 1 4 0]).getD
    []

def duplicateState : StoreState := ⟨current staff duplicateTrace, fun _ => none⟩

end Sample

open Sample in
/-- A third submission under a new key is answered before the lock, and would
have got the same answer under it. -/
theorem duplicateState_locked :
    ∃ result, result.idempotentReplay = false ∧ result.job.duplicateDetected = true ∧
      (lockedPath platform (uploadOf "key-2" imageA) none).run
          (answerAlone platform ⟨[]⟩ ⟨5, 0, 5, 2, 2⟩) duplicateState =
        (.ok result, duplicateState) := by
  obtain ⟨result, s', hreplay, hflag, hfast⟩ : ∃ result s', result.idempotentReplay = false ∧
      result.job.duplicateDetected = true ∧
      (fastPath platform (uploadOf "key-2" imageA)).run (answerAlone platform ⟨[]⟩ ⟨5, 0, 5, 2, 2⟩)
        duplicateState = (Except.map some (.ok result), s') := ⟨_, _, rfl, rfl, rfl⟩
  exact ⟨result, hreplay, hflag, (fast_path_eq_locked_path platform ⟨[]⟩ ⟨5, 0, 5, 2, 2⟩
    duplicateState s' (uploadOf "key-2" imageA) none (.ok result) hfast).2.1⟩

end ReceiptReview
