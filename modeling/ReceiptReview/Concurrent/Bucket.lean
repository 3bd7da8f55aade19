import ReceiptReview.Concurrent.Calls
import ReceiptReview.Service.ImageStorage

/-!
# Uploads and the bucket

The pool of the upload calls with the bucket that they store their images in.  A
`put` is sent before the transaction of the call and outside of it.  It may fail
before it is sent, or be answered by a failure and yet take effect, at any later
time and more than once (`Objects.lands`).

What concerns the bucket is told by the path of a call (`ImageAllows`): it stores
its own bytes, and creates its receipt under the key that this has returned.
-/

namespace ReceiptReview

open Java Store UploadTranscript ReceiptUploadService

/-! ## The paths of a call -/

/-- The image of a call, as it is stored. -/
def UploadCall.storing (P : Platform) (call : UploadCall) : UploadRequest :=
  .store call.companyId (P.sha256 call.bytes) call.bytes

/-- What a call requests, as far as images are concerned. -/
def ImageAllows (P : Platform) (call : UploadCall) (past : UploadTranscript) :
    UploadRequest → Prop
  | .store companyId imageSha256 bytes =>
      companyId = call.companyId ∧ imageSha256 = P.sha256 call.bytes ∧ bytes = call.bytes
  | .createQueued receipt storageKey _ _ =>
      Answered past (call.storing P) storageKey ∧ receipt.imageSha256 = P.sha256 call.bytes ∧
        ∃ format, ReceiptImageFormat.detect call.bytes = .ok format ∧
          receipt.contentType = some format.contentType
  | _ => True

abbrev imageAlong {α : Type} (P : Platform) (call : UploadCall) (p : UploadProgram α)
    (past : UploadTranscript) : Prop :=
  Program.along (fun _ _ => True) (ImageAllows P call) p (fun _ _ => True) past

section Paths

variable {P : Platform} {call : UploadCall} {past : UploadTranscript} {α β : Type}

theorem imageAlong_bind {p : UploadProgram α} {f : α → UploadProgram β}
    (hp : imageAlong P call p past) (hf : ∀ a past', imageAlong P call (f a) past') :
    imageAlong P call (p >>= f) past := by
  rw [imageAlong, Program.along_bind]
  refine Program.along_mono hp fun outcome past' _ => ?_
  cases outcome with
  | ok a => exact hf a past'
  | error e => trivial

theorem imageAlong_tryCatch {p : UploadProgram α} {handler : Failure → UploadProgram α}
    (hp : imageAlong P call p past) (hhandler : ∀ e past', imageAlong P call (handler e) past') :
    imageAlong P call (p.tryCatch handler) past := by
  rw [imageAlong, Program.along_tryCatch]
  refine Program.along_mono hp fun outcome past' _ => ?_
  cases outcome with
  | ok a => trivial
  | error e => exact hhandler e past'

theorem imageAlong_ask {request : UploadRequest} (hallows : ImageAllows P call past request) :
    imageAlong P call (ask request) past := by
  refine ⟨hallows, fun answer _ => ?_⟩
  cases answer <;> trivial

theorem imageAlong_of_looksUp {p : UploadProgram α} (h : LooksUp p) :
    imageAlong P call p past :=
  h.along (fun _ request hstored => by
    cases request with
    | store | createQueued => exact hstored.elim
    | _ => trivial) past

/-- The receipt is created under the key that storing the image has returned. -/
theorem imageAlong_acceptWhileLocked {format : ReceiptImageFormat}
    (hformat : ReceiptImageFormat.detect call.bytes = .ok format) :
    imageAlong P call
      (acceptWhileLocked call.companyId (normalize call.idempotencyKey) call.fileName
        (some format.contentType) call.bytes (P.sha256 call.bytes) call.ownerId) past := by
  refine imageAlong_bind (imageAlong_of_looksUp (looksUp_findIdempotentReplay _ _ _))
    fun replay past => ?_
  cases replay with
  | some result => trivial
  | none =>
      refine imageAlong_bind (imageAlong_ask trivial) fun found past => ?_
      cases found with
      | some existing => exact imageAlong_of_looksUp (looksUp_acceptDuplicate _ _)
      | none =>
          refine imageAlong_bind (imageAlong_ask trivial) fun now past => ?_
          refine ⟨⟨rfl, rfl, rfl⟩, fun stored _ => ?_⟩
          cases stored with
          | error e => trivial
          | ok storageKey =>
              refine imageAlong_tryCatch (imageAlong_bind (imageAlong_ask ?_) fun _ _ => trivial)
                fun e past => ?_
              · exact ⟨List.mem_cons_self, rfl, format, hformat, rfl⟩
              · split
                · exact imageAlong_of_looksUp (looksUp_resolveConstraintConflict _ _ _ _)
                · trivial

theorem imageAlong_upload (P : Platform) (call : UploadCall) :
    imageAlong P call (upload P call) [] := by
  unfold upload
  split
  · trivial
  · cases hformat : ReceiptImageFormat.detect call.bytes with
    | error e => trivial
    | ok format =>
        show imageAlong P call (findIdempotentReplay _ _ _ >>= _) []
        refine imageAlong_bind (imageAlong_of_looksUp (looksUp_findIdempotentReplay _ _ _))
          fun replay past => ?_
        cases replay with
        | some result => trivial
        | none =>
            refine imageAlong_bind (imageAlong_of_looksUp (looksUp_findProcessedDuplicate _ _ _))
              fun found past => ?_
            cases found with
            | some result => trivial
            | none =>
                refine imageAlong_tryCatch ?_ fun e past => ?_
                · refine imageAlong_bind (imageAlong_ask trivial) fun outcome past => ?_
                  cases outcome with
                  | timedOut | interrupted => trivial
                  | acquired =>
                      rw [imageAlong, Program.along_tryFinally]
                      refine Program.along_mono (imageAlong_acceptWhileLocked hformat) ?_
                      intro outcome past _
                      exact imageAlong_bind (imageAlong_ask trivial) fun _ _ => trivial
                · split
                  · apply imageAlong_of_looksUp
                    refine Program.requests_bind (looksUp_findProcessedDuplicate _ _ _) ?_
                    intro found
                    cases found <;> trivial
                  · trivial

end Paths

/-! ## The calls beside the bucket -/

/-- The bucket, and the puts that have been sent to it. -/
structure Objects where
  sent : List (JString × List UInt8)
  bucket : Bucket

namespace Objects

def send (objects : Objects) (key : JString) (bytes : List UInt8) : Objects :=
  { objects with sent := (key, bytes) :: objects.sent }

/-- A put takes effect. -/
def land (objects : Objects) (key : JString) (bytes : List UInt8) : Objects :=
  { objects with bucket := objects.bucket.put key bytes }

/-- A put is answered after it has taken effect; a failure says nothing of it. -/
def Stores (P : Platform) (storage : S3ReceiptImageStorage) (companyId imageSha256 : JString)
    (bytes : List UInt8) (objects : Objects) (answer : Except Failure JString)
    (objects' : Objects) : Prop :=
  match S3ReceiptImageStorage.storageKey P companyId imageSha256 bytes with
  | .error e => answer = .error e ∧ objects' = objects
  | .ok storageKey =>
      let key := storage.keyPrefix ++ storageKey
      answer = .ok storageKey ∧ objects' = (objects.send key bytes).land key bytes ∨
        (∃ e, answer = .error e) ∧ (objects' = objects ∨ objects' = objects.send key bytes)

/-- A request of a call, as far as it concerns the bucket. -/
def Serves (P : Platform) (storage : S3ReceiptImageStorage) (objects : Objects) :
    (request : UploadRequest) → request.Answer → Objects → Prop
  | .store companyId imageSha256 bytes, answer, objects' =>
      Stores P storage companyId imageSha256 bytes objects answer objects'
  | _, _, objects' => objects' = objects

/-- A put that was sent takes effect, whatever the caller was told. -/
def Lands (objects objects' : Objects) : Prop :=
  ∃ object ∈ objects.sent, objects' = objects.land object.1 object.2

end Objects

structure ImagesState (ι : Type) where
  calls : CallsState ι
  objects : Objects

variable (P : Platform) (employees : Table Employee) {ι : Type}

/-- The threads of the calls, beside the bucket. -/
def imagesRules (storage : S3ReceiptImageStorage) (exclusive : Prop) (calls : ι → UploadCall) :
    PoolRules ι (ImagesState ι) UploadRequest UploadRequest.Answer Failure UploadResult where
  program i := upload P (calls i)
  starts _ s s' := s' = s
  serves i s request answer s' :=
    CallsState.Serves P employees exclusive i s.calls request answer s'.calls ∧
      s.objects.Serves P storage request answer s'.objects
  dies i s s' := s'.calls = s.calls.leave i ∧ s'.objects = s.objects
  others s s' :=
    CallsState.Others P employees s.calls s'.calls ∧ s'.objects = s.objects ∨
      s'.calls = s.calls ∧ s.objects.Lands s'.objects

abbrev ImagesPool (ι : Type) : Type :=
  Pool ι (ImagesState ι) UploadRequest UploadRequest.Answer Failure UploadResult

/-- The pools that are reached from the empty store and any bucket. -/
def ImagesRun [DecidableEq ι] (storage : S3ReceiptImageStorage) (exclusive : Prop)
    (calls : ι → UploadCall) (bucket : Bucket) (pool : ImagesPool ι) : Prop :=
  Pool.Run (imagesRules P employees storage exclusive calls) ⟨.start [], ⟨[], bucket⟩⟩ pool

variable {P employees} {storage : S3ReceiptImageStorage} {exclusive : Prop}
variable {calls : ι → UploadCall} {bucket : Bucket}

/-- The calls do not notice the bucket. -/
theorem imagesRules_simulates :
    (imagesRules P employees storage exclusive calls).Simulates
      (callsRules P employees exclusive calls) ImagesState.calls where
  program := rfl
  starts h := congrArg ImagesState.calls h
  serves h := h.1
  dies h := h.1
  others h := h.elim (fun hothers => .inr hothers.1) fun hlands => .inl hlands.1

variable [DecidableEq ι] {pool pool' : ImagesPool ι}

theorem ImagesRun.callsRun (h : ImagesRun P employees storage exclusive calls bucket pool) :
    CallsRun P employees exclusive calls [] (pool.map ImagesState.calls) :=
  Pool.Run.map imagesRules_simulates h

/-- The history of the database beside the bucket. -/
def imagesTrace (pool : ImagesPool ι) : List Commit :=
  pool.shared.calls.trace

theorem ImagesRun.run (h : ImagesRun P employees storage exclusive calls bucket pool) :
    Run P employees (imagesTrace pool) :=
  h.callsRun.continues.run .nil

/-- A call requests only what its image allows. -/
theorem ImagesRun.allowed (h : ImagesRun P employees storage exclusive calls bucket pool) {i : ι}
    {past : UploadTranscript} {request : UploadRequest}
    {next : request.Answer → UploadProgram UploadResult}
    (hthread : pool.threads i = some ⟨past, some (.call request next)⟩) :
    ImageAllows P (calls i) past request :=
  Pool.Run.allowed h (fun _ _ _ _ _ _ => trivial) (imageAlong_upload P (calls i)) hthread

/-- What a step adds to the history: nothing, a commit of a worker or an employee,
or the transaction of a call. -/
theorem ImagesRun.trace_cases (h : ImagesRun P employees storage exclusive calls bucket pool)
    (hstep : Pool.Step (imagesRules P employees storage exclusive calls) pool pool') :
    imagesTrace pool' = imagesTrace pool ∨
      ∃ commit, imagesTrace pool' = commit :: imagesTrace pool ∧
        (commit.operation.isIntake = false ∨ ∃ i exchange,
          ImageAllows P (calls i) (pool.past i) exchange.request ∧ commit.MadeBy exchange) := by
  rcases hstep.past_cases with ⟨-, hothers | ⟨i, hstarts | hdies⟩⟩ |
    ⟨i, request, answer, next, hthread, hserves, -, -⟩
  · rcases hothers with ⟨⟨commit, hintake, -, -, hcalls⟩, -⟩ | ⟨hcalls, -⟩
    · exact .inr ⟨commit, by rw [imagesTrace, hcalls]; rfl, .inl hintake⟩
    · exact .inl (congrArg CallsState.trace hcalls)
  · exact .inl (congrArg (fun s => s.calls.trace) hstarts)
  · exact .inl (by rw [imagesTrace, hdies.1]; rfl)
  · rcases CallsState.Serves.log_cases hserves.1 with ⟨hlog, -⟩ | ⟨commit, hmade, -, hcalls⟩
    · exact .inl (CallsState.trace_of_log hlog)
    · exact .inr ⟨commit, by rw [imagesTrace, hcalls]; rfl,
        .inr ⟨i, ⟨request, answer⟩, h.allowed hthread, hmade⟩⟩

end ReceiptReview
