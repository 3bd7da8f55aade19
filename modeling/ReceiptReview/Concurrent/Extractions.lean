import ReceiptReview.Concurrent.Bucket
import ReceiptReview.Concurrent.Workers
import ReceiptReview.Service.Extractor
import ReceiptReview.Service.ImageReading

/-!
# Uploads, workers and their collaborators

The whole pipeline: the pool of the uploads with their bucket, and beside it the threads of
the workers, whose images come from that bucket, are inspected, and are sent to the
provider.  A step of the uploads is one that the workers know (`PipelineRun.workers_step`),
so what holds of all runs of the workers holds here.

`ProcessTells` says what each request of an attempt tells of the ones before it, given what
the collaborators can throw.
-/

namespace ReceiptReview

open Java Store ReceiptExtractionProcessor

/-- What the collaborators of the processor are set to, and what the decoder, the provider
and the object mapper may answer. -/
structure Collaborators where
  storage : S3ReceiptImageStorage
  quality : Quality
  openAi : OpenAi
  decodes : List UInt8 → DecodeOutcome → Prop
  answers : (request : ExtractorRequest) → request.Answer → Prop

namespace Collaborators

variable (collaborators : Collaborators)

/-- The extractor ends so, beside the answers of the provider and the mapper. -/
def Extracts (request : ExtractionRequest) (answer : Except Failure ExtractionResult) : Prop :=
  Program.Executes (fun (_ : Unit) request answer _ => collaborators.answers request answer) Eq ()
    (OpenAiReceiptExtractor.extract collaborators.openAi request) answer ()

/-- A request of an attempt is answered.  The clock does not fail, and a transaction throws
none of the exceptions of the storage or of the extractor. -/
def Serves (bucket : Bucket) : (request : ProcessRequest) → request.Answer → Prop
  | .load storageKey, answer => ∃ outcome,
      outcome.Tells (bucket (collaborators.storage.keyPrefix ++ storageKey)) ∧
        answer = S3ReceiptImageStorage.read outcome
  | .inspect image, answer => ∃ decoded, collaborators.decodes image decoded ∧
      answer = ImageQualityInspector.inspect collaborators.quality image decoded
  | .extract request, answer => collaborators.Extracts request answer
  | .now, answer => ∃ now, answer = .ok now
  | .completeQualityRejection .., answer | .completeExtraction .., answer
  | .scheduleRetry .., answer | .failExtraction .., answer =>
      ∀ e, answer = .error e → e.isRetryable = false ∧ e.isFatal = false

end Collaborators

/-! ## What an attempt tells -/

/-- Whatever the bucket holds, a request is answered like this. -/
def ProcessRequest.Possible : (request : ProcessRequest) → request.Answer → Prop
  | .load _, answer => ∀ message, answer ≠ .error (.extraction message)
  | .inspect _, answer => ∀ e, answer = .error e → e.isRetryable = false ∧ e.isFatal = false
  | .extract _, answer => ∀ e, answer = .error e → ∃ message, e = .extraction message
  | .now, answer => ∃ now, answer = .ok now
  | .completeQualityRejection .., answer | .completeExtraction .., answer
  | .scheduleRetry .., answer | .failExtraction .., answer =>
      ∀ e, answer = .error e → e.isRetryable = false ∧ e.isFatal = false

abbrev ProcessTranscript : Type := Transcript ProcessRequest ProcessRequest.Answer

/-- The image was loaded, and the inspection has found this. -/
def inspected (claim : ClaimedReceiptJob) (image : List UInt8) (quality : ImageQualityResult) :
    ProcessTranscript :=
  [⟨.inspect image, .ok quality⟩, ⟨.load claim.imageStorageKey, .ok image⟩]

/-- The image is sent to the provider with the content type of the claim. -/
def extractionOf (claim : ClaimedReceiptJob) (image : List UInt8) : ExtractionRequest :=
  ⟨image, claim.contentType, claim.fileName⟩

/-- The storage or the extractor has thrown this exception. -/
inductive FailedBy (claim : ClaimedReceiptJob) (e : Failure) : ProcessTranscript → Prop
  | load : FailedBy claim e [⟨.load claim.imageStorageKey, .error e⟩]
  | extract {image : List UInt8} {quality : ImageQualityResult} : e.isFatal = false →
      quality.status = .acceptable →
      FailedBy claim e
        (⟨.extract (extractionOf claim image), .error e⟩ :: inspected claim image quality)

/-- What a request of an attempt tells of those before it. -/
def ProcessTells (claim : ClaimedReceiptJob) (past : ProcessTranscript) :
    ProcessRequest → Prop
  | .load storageKey => past = [] ∧ storageKey = claim.imageStorageKey
  | .inspect image => past = [⟨.load claim.imageStorageKey, .ok image⟩]
  | .extract request => ∃ image quality, quality.status = .acceptable ∧
      request = extractionOf claim image ∧ past = inspected claim image quality
  | .now => True
  | .completeQualityRejection claimedJob quality => claimedJob = claim ∧
      quality.status ≠ .acceptable ∧ ∃ image, past = inspected claim image quality
  | .completeExtraction claimedJob extraction extractedAt => claimedJob = claim ∧
      ∃ image quality, quality.status = .acceptable ∧
        past = ⟨.now, .ok extractedAt⟩ :: ⟨.extract (extractionOf claim image), .ok extraction⟩ ::
          inspected claim image quality
  | .scheduleRetry claimedJob errorCode errorMessage _ => claimedJob = claim ∧
      claim.attemptCount < MAX_ATTEMPTS ∧ ∃ now e earlier, past = ⟨.now, .ok now⟩ :: earlier ∧
        FailedBy claim e earlier ∧ e.isRetryable = true ∧
        errorCode = .ofString e.simpleName ∧ errorMessage = e.message
  | .failExtraction claimedJob errorCode errorMessage => claimedJob = claim ∧
      ∃ e, FailedBy claim e past ∧
        (e.isFatal = true ∨ e.isRetryable = true ∧ MAX_ATTEMPTS ≤ claim.attemptCount) ∧
        errorCode = .ofString e.simpleName ∧ errorMessage = e.message

/-- An attempt ends with its report, or with an exception that its last request has thrown
and that is none of those it reports. -/
def ProcessEnds (claim : ClaimedReceiptJob) (outcome : Except Failure Receipt)
    (past : ProcessTranscript) : Prop :=
  ∃ request answer earlier, past = ⟨request, answer⟩ :: earlier ∧
    match outcome with
    | .ok _ => request.claim? = some claim ∧ ∃ result, answer = .ok result
    | .error e => answer = .error e ∧ e.isRetryable = false ∧ e.isFatal = false

/-- A program of an attempt, whatever it is answered. -/
abbrev Tells (claim : ClaimedReceiptJob) (p : ProcessProgram Receipt) (past : ProcessTranscript) :
    Prop :=
  Program.along ProcessRequest.Possible (ProcessTells claim) p (ProcessEnds claim) past

section Tells

variable {claim : ClaimedReceiptJob} {past : ProcessTranscript} {e : Failure}

theorem tells_retryOrFail (hfailed : FailedBy claim e past) (he : e.isRetryable = true) :
    Tells claim (retryOrFail claim e) past := by
  unfold retryOrFail
  by_cases hattempts : claim.attemptCount < MAX_ATTEMPTS
  · simp only [hattempts]
    refine ⟨trivial, fun answer hnow => ?_⟩
    obtain ⟨now, rfl⟩ := hnow
    refine ⟨⟨rfl, hattempts, now, e, past, rfl, hfailed, he, rfl, rfl⟩, fun answer hanswer => ?_⟩
    cases answer with
    | error e' => exact ⟨_, _, _, rfl, rfl, hanswer e' rfl⟩
    | ok receipt => exact ⟨_, _, _, rfl, rfl, _, rfl⟩
  · simp only [hattempts]
    refine ⟨⟨rfl, e, hfailed, .inr ⟨he, not_lt.mp hattempts⟩, rfl, rfl⟩, fun answer hanswer => ?_⟩
    cases answer with
    | error e' => exact ⟨_, _, _, rfl, rfl, hanswer e' rfl⟩
    | ok receipt => exact ⟨_, _, _, rfl, rfl, _, rfl⟩

/-- A fatal failure is reported at once. -/
theorem tells_failExtraction (hfailed : FailedBy claim e past) (he : e.isFatal = true) :
    Tells claim (ReceiptExtractionProcessor.ask
      (.failExtraction claim (.ofString e.simpleName) e.message)) past := by
  refine ⟨⟨rfl, e, hfailed, .inl he, rfl, rfl⟩, fun answer hanswer => ?_⟩
  cases answer with
  | error e' => exact ⟨_, _, _, rfl, rfl, hanswer e' rfl⟩
  | ok receipt => exact ⟨_, _, _, rfl, rfl, _, rfl⟩

/-- What the `catch` blocks do not know is thrown further. -/
theorem tells_unhandled {request : ProcessRequest}
    (he : e.isRetryable = false ∧ e.isFatal = false) :
    Tells claim (handle claim e) (⟨request, .error e⟩ :: past) := by
  have hthrown : handle claim e = Program.throw e := by
    obtain ⟨hretryable, hfatal⟩ := he
    cases e with
    | extraction | receiptImageNotFound => simp [Failure.isRetryable, Failure.isFatal] at *
    | receiptImageStorage message retryable =>
        cases retryable <;> simp [Failure.isRetryable, Failure.isFatal] at *
    | _ => rfl
  rw [hthrown]
  exact ⟨request, .error e, past, rfl, rfl, he⟩

/-- The `catch` blocks, after a failure of the storage or of the extractor. -/
theorem tells_handle (hfailed : FailedBy claim e past) : Tells claim (handle claim e) past := by
  have hunhandled : e.isRetryable = false → e.isFatal = false →
      Tells claim (handle claim e) past := by
    intro hretryable hfatal
    cases hfailed with
    | load | extract => exact tells_unhandled ⟨hretryable, hfatal⟩
  cases e with
  | extraction message => exact tells_retryOrFail hfailed rfl
  | receiptImageStorage message retryable =>
      cases retryable with
      | true => exact tells_retryOrFail hfailed rfl
      | false => exact tells_failExtraction hfailed rfl
  | receiptImageNotFound => exact tells_failExtraction hfailed rfl
  | _ => exact hunhandled rfl rfl

theorem tells_extractInspected (image : List UInt8) (quality : ImageQualityResult) :
    Tells claim ((extractInspected claim image quality).tryCatch (handle claim))
      (inspected claim image quality) := by
  unfold extractInspected
  by_cases hquality : quality.status ≠ .acceptable
  · rw [if_pos hquality]
    refine ⟨⟨rfl, hquality, image, rfl⟩, fun answer hanswer => ?_⟩
    cases answer with
    | error e => exact tells_unhandled (hanswer e rfl)
    | ok receipt => exact ⟨_, _, _, rfl, rfl, _, rfl⟩
  · have hacceptable := not_not.mp hquality
    rw [if_neg hquality]
    refine ⟨⟨image, quality, hacceptable, rfl, rfl⟩, fun answer hanswer => ?_⟩
    cases answer with
    | error e =>
        obtain ⟨message, rfl⟩ := hanswer e rfl
        exact tells_handle (.extract rfl hacceptable)
    | ok extraction =>
        refine ⟨trivial, fun answer hnow => ?_⟩
        obtain ⟨now, rfl⟩ := hnow
        refine ⟨⟨rfl, image, quality, hacceptable, rfl⟩, fun answer hanswer => ?_⟩
        cases answer with
        | error e => exact tells_unhandled (hanswer e rfl)
        | ok receipt => exact ⟨_, _, _, rfl, rfl, _, rfl⟩

/-- An attempt tells where its report comes from. -/
theorem tells_process (claim : ClaimedReceiptJob) : Tells claim (process claim) [] := by
  refine ⟨⟨rfl, rfl⟩, fun answer hanswer => ?_⟩
  cases answer with
  | error e => exact tells_handle .load
  | ok image =>
      refine ⟨rfl, fun answer hanswer => ?_⟩
      cases answer with
      | error e => exact tells_unhandled (hanswer e rfl)
      | ok quality => exact tells_extractInspected image quality

end Tells

/-! ## What the collaborators can throw -/

namespace Collaborators

variable {collaborators : Collaborators}

theorem Extracts.extracted {request : ExtractionRequest}
    {answer : Except Failure ExtractionResult} (h : collaborators.Extracts request answer) :
    OpenAiReceiptExtractor.Extracted collaborators.openAi request collaborators.answers answer :=
  Program.wp_iff.mp OpenAiReceiptExtractor.wp_extract answer () h

theorem Serves.possible {bucket : Bucket} {request : ProcessRequest} {answer : request.Answer}
    (h : collaborators.Serves bucket request answer) : request.Possible answer := by
  cases request with
  | load storageKey =>
      obtain ⟨outcome, -, rfl⟩ := h
      intro message hthrown
      rcases S3ReceiptImageStorage.read_throws hthrown with h | h | ⟨_, _, h⟩ <;> cases h
  | inspect image =>
      obtain ⟨decoded, -, rfl⟩ := h
      intro e he
      rw [ImageQualityInspector.inspect_eq_error he]
      exact ⟨rfl, rfl⟩
  | extract request =>
      intro e he
      subst he
      obtain ⟨message, rfl⟩ := Extracts.extracted h
      exact ⟨_, rfl⟩
  | _ => exact h

end Collaborators

/-! ## The pipeline -/

/-- The uploads beside their bucket, and the claims whose attempt has been started. -/
structure PipelineState (ι : Type) where
  images : ImagesPool ι
  started : List ClaimedReceiptJob

namespace PipelineState

variable {ι : Type}

def trace (s : PipelineState ι) : List Commit := imagesTrace s.images

def bucket (s : PipelineState ι) : Bucket := s.images.shared.objects.bucket

/-- What the workers see of it. -/
def workers (s : PipelineState ι) : WorkerState := ⟨s.trace, s.started⟩

/-- A commit of a worker. -/
def commit (s : PipelineState ι) (commit : Commit) : PipelineState ι :=
  { s with images.shared.calls := s.images.shared.calls.add none commit }

variable (P : Platform) (employees : Table Employee) (collaborators : Collaborators)

/-- A request of an attempt is answered, and a report that returns is committed. -/
def Serves (s : PipelineState ι) (request : ProcessRequest) (answer : request.Answer)
    (s' : PipelineState ι) : Prop :=
  collaborators.Serves s.bucket request answer ∧
    match answer with
    | .error _ => s' = s
    | .ok result =>
        match request.reply? result with
        | none => s' = s
        | some reply => ∃ commit : Commit, request.Runs commit.operation ∧ commit.reply = reply ∧
            Extends P employees s.trace commit.operation commit.reply (commit :: s.trace) ∧
            s' = s.commit commit

/-- A step of the uploads, or of whatever commits beside the attempts. -/
def Others [DecidableEq ι] (exclusive : Prop) (calls : ι → UploadCall) (s s' : PipelineState ι) :
    Prop :=
  Pool.Step (imagesRules P employees collaborators.storage exclusive calls) s.images s'.images ∧
    s'.started = s.started ∧
    ∀ commit, s'.trace = commit :: s.trace → commit.operation.isOfProcess = false ∧
      commit.DrawsFresh s.trace ∧
      ∀ claim, commit.operation.claim? = some claim →
        HandedOut s.trace claim ∧ claim ∉ s.started

end PipelineState

section Pipeline

variable (P : Platform) (employees : Table Employee) {ι : Type} [DecidableEq ι]
variable (collaborators : Collaborators) (exclusive : Prop) (calls : ι → UploadCall)

/-- The attempts of the workers, beside the uploads. -/
def pipelineRules : PoolRules ClaimedReceiptJob (PipelineState ι) ProcessRequest
    ProcessRequest.Answer Failure Receipt where
  program := process
  starts claim s s' := HandedOut s.trace claim ∧ ¬ HandedBack s.trace claim ∧
    s' = { s with started := claim :: s.started }
  serves _ := PipelineState.Serves P employees collaborators
  dies _ s s' := s' = s
  others := PipelineState.Others P employees collaborators exclusive calls

abbrev PipelinePool (ι : Type) : Type :=
  Pool ClaimedReceiptJob (PipelineState ι) ProcessRequest ProcessRequest.Answer Failure Receipt

/-- The pools that are reached from the empty store and any bucket. -/
def PipelineRun (bucket : Bucket) (pool : PipelinePool ι) : Prop :=
  Pool.Run (pipelineRules P employees collaborators exclusive calls)
    ⟨.initial ⟨.start [], ⟨[], bucket⟩⟩, []⟩ pool

variable {P employees collaborators exclusive calls} {bucket : Bucket}
variable {pool pool' : PipelinePool ι} {claim : ClaimedReceiptJob}

theorem isIntake_of_runs {request : ProcessRequest} {operation : Operation}
    (h : request.Runs operation) : operation.isIntake = false := by
  cases request <;> first | exact h.elim | skip
  case completeQualityRejection | scheduleRetry | failExtraction =>
      obtain ⟨now, rfl⟩ := h
      rfl
  case completeExtraction =>
      obtain ⟨today, completedAt, rfl⟩ := h
      rfl

/-- What a step of the uploads commits. -/
theorem ImagesRun.commits {images images' : ImagesPool ι} {storage : S3ReceiptImageStorage}
    (h : ImagesRun P employees storage exclusive calls bucket images)
    (hstep : Pool.Step (imagesRules P employees storage exclusive calls) images images') :
    imagesTrace images' = imagesTrace images ∨ ∃ commit,
      imagesTrace images' = commit :: imagesTrace images ∧
      commit.operation.Permitted P employees ∧
      Extends P employees (imagesTrace images) commit.operation commit.reply
        (commit :: imagesTrace images) := by
  rcases hstep.map imagesRules_simulates with hsame | hcalls
  · exact .inl (congrArg (fun calls => calls.shared.trace) hsame)
  · cases h.callsRun.step_cases hcalls with
    | quiet hlog => exact .inl (CallsState.trace_of_log hlog)
    | other commit hlog _ hpermitted hextends =>
        exact .inr ⟨commit, congrArg (List.map Prod.snd) hlog, hpermitted, hextends⟩
    | served i past rest exchange commit hlog _ hallows hmade hextends =>
        exact .inr ⟨commit, congrArg (List.map Prod.snd) hlog, permitted_of_madeBy hmade hallows,
          hextends⟩

/-- A served request is one of the uploads' environment. -/
theorem PipelineState.Serves.images {s s' : PipelineState ι} {request : ProcessRequest}
    {answer : request.Answer}
    (h : PipelineState.Serves P employees collaborators s request answer s') :
    s'.images = s.images ∨
      Pool.Step (imagesRules P employees collaborators.storage exclusive calls) s.images
        s'.images := by
  obtain ⟨-, h⟩ := h
  split at h
  · exact .inl (by rw [h])
  · split at h
    · exact .inl (by rw [h])
    · obtain ⟨commit, hruns, -, hextends, rfl⟩ := h
      exact .inr (.others (.inl ⟨⟨commit, isIntake_of_runs hruns,
        ProcessRequest.permitted_of_runs hruns, hextends, rfl⟩, rfl⟩))

omit [DecidableEq ι] in
theorem PipelineState.Serves.workers {s s' : PipelineState ι} {request : ProcessRequest}
    {answer : request.Answer}
    (h : PipelineState.Serves P employees collaborators s request answer s') :
    WorkerState.Serves P employees s.workers request answer s'.workers := by
  obtain ⟨-, h⟩ := h
  unfold WorkerState.Serves
  cases answer with
  | error e => exact congrArg PipelineState.workers h
  | ok result =>
      cases hreply : request.reply? result with
      | none =>
          simp only [hreply] at h ⊢
          exact congrArg PipelineState.workers h
      | some reply =>
          simp only [hreply] at h ⊢
          obtain ⟨commit, hruns, rfl, hextends, rfl⟩ := h
          exact ⟨⟨commit.operation, hruns, hextends⟩, rfl⟩

/-- The uploads of the pipeline run like uploads. -/
theorem PipelineRun.images (h : PipelineRun P employees collaborators exclusive calls bucket pool) :
    ImagesRun P employees collaborators.storage exclusive calls bucket pool.shared.images := by
  induction h with
  | initial => exact .initial
  | step _ hstep ih =>
      cases hstep with
      | others hothers => exact .step ih hothers.1
      | start _ hstarts =>
          obtain ⟨-, -, rfl⟩ := hstarts
          exact ih
      | serve _ hserves =>
          rcases hserves.images with hsame | himages
          · rwa [Pool.shared_update, hsame]
          · exact .step ih himages
      | die _ hdies =>
          rw [Pool.shared_update, show _ = _ from hdies]
          exact ih

/-- A step of the pipeline is a step of the workers, or one that they do not see. -/
theorem PipelineRun.workers_step
    (h : PipelineRun P employees collaborators exclusive calls bucket pool)
    (hstep : Pool.Step (pipelineRules P employees collaborators exclusive calls) pool pool') :
    pool'.map PipelineState.workers = pool.map PipelineState.workers ∨
      Pool.Step (workerRules P employees) (pool.map PipelineState.workers)
        (pool'.map PipelineState.workers) := by
  cases hstep with
  | @others s' hothers =>
      obtain ⟨himages, hstarted, hcommits⟩ := hothers
      rcases h.images.commits himages with hsame | ⟨commit, htrace, hpermitted, hextends⟩
      · exact .inl (congrArg (Pool.mk · pool.threads) (WorkerState.ext hsame hstarted))
      · obtain ⟨hother, hfresh, hclaims⟩ := hcommits commit htrace
        refine .inr (.others ⟨⟨commit.operation, commit.reply, hother, hpermitted, ?_, hclaims⟩,
          ?_, hstarted⟩)
        · show Extends P employees _ commit.operation commit.reply s'.workers.trace
          rw [show s'.workers.trace = commit :: pool.shared.trace from htrace]
          exact hextends
        · intro other hother
          obtain ⟨rfl, -⟩ := List.cons.inj (htrace.symm.trans hother)
          exact hfresh
  | start hnone hstarts =>
      obtain ⟨hhanded, hback, rfl⟩ := hstarts
      exact .inr (.start hnone ⟨hhanded, hback, rfl⟩)
  | serve hthread hserves => exact .inr (.serve hthread hserves.workers)
  | die hthread hdies =>
      exact .inr (.die hthread (congrArg PipelineState.workers hdies))

/-- The attempts of the pipeline run like attempts. -/
theorem PipelineRun.workers
    (h : PipelineRun P employees collaborators exclusive calls bucket pool) :
    WorkerRun P employees (pool.map PipelineState.workers) := by
  induction h with
  | initial => exact .initial
  | step hrun hstep ih =>
      rcases PipelineRun.workers_step hrun hstep with hsame | hstep'
      · rwa [hsame]
      · exact .step ih hstep'

theorem PipelineRun.run (h : PipelineRun P employees collaborators exclusive calls bucket pool) :
    Run P employees pool.shared.trace :=
  h.images.run

theorem PipelineRun.tells (h : PipelineRun P employees collaborators exclusive calls bucket pool)
    {past : ProcessTranscript} {p : ProcessProgram Receipt}
    (hthread : pool.threads claim = some ⟨past, some p⟩) : Tells claim p past :=
  Pool.Run.along h (fun _ _ _ _ _ hserves => hserves.1.possible) (tells_process claim) hthread

/-- Uploads and claims run like the pipeline before its first attempt. -/
theorem pipelineRun_of_images {images : ImagesPool ι}
    (h : ImagesRun P employees collaborators.storage exclusive calls bucket images)
    (hdisciplined : Disciplined (imagesTrace images))
    (hothers : ∀ commit ∈ imagesTrace images,
      commit.operation.isOfProcess = false ∧ commit.operation.claim? = none) :
    PipelineRun P employees collaborators exclusive calls bucket (.initial ⟨images, []⟩) := by
  induction h with
  | initial => exact .initial
  | @step images images' hrun hstep ih =>
      have hnext : Disciplined (imagesTrace images) →
          (∀ commit ∈ imagesTrace images,
            commit.operation.isOfProcess = false ∧ commit.operation.claim? = none) →
          (∀ commit, imagesTrace images' = commit :: imagesTrace images →
            commit.operation.isOfProcess = false ∧ commit.DrawsFresh (imagesTrace images) ∧
              commit.operation.claim? = none) →
          PipelineRun P employees collaborators exclusive calls bucket
            (.initial ⟨images', []⟩) := by
        intro hbefore hothers hcommits
        refine .step (ih hbefore hothers) (.others ⟨hstep, rfl, fun commit htrace => ?_⟩)
        obtain ⟨hother, hfresh, hnone⟩ := hcommits commit htrace
        exact ⟨hother, hfresh, fun claim hclaim => absurd (hnone.symm.trans hclaim) (by simp)⟩
      rcases ImagesRun.commits hrun hstep with hsame | ⟨commit, htrace, -, -⟩
      · rw [hsame] at hdisciplined hothers hnext
        refine hnext hdisciplined hothers fun commit hcons => ?_
        exact absurd hcons.symm (List.cons_ne_self _ _)
      · rw [htrace] at hdisciplined hothers
        obtain ⟨hnew, hold⟩ := List.forall_mem_cons.mp hothers
        refine hnext hdisciplined.1 hold fun other hcons => ?_
        obtain ⟨rfl, -⟩ := List.cons.inj (htrace.symm.trans hcons)
        exact ⟨hnew.1, hdisciplined.2.2, hnew.2⟩

end Pipeline

end ReceiptReview
