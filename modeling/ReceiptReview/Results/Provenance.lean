import ReceiptReview.Concurrent.Extractions
import ReceiptReview.Results.FailedJobs
import ReceiptReview.Results.Images

/-!
# Where extracted data comes from

A claim names the key and the content type of its own receipt (`Run.names_of_handedOut`),
the object under that key is the image of the receipt, and each request of an attempt is
explained by those before it.  So the data of a receipt was read from what the provider
has answered about the very image that was uploaded (`extracted_from_own_image`).

The same path tells why a job has failed: its object is never missing, so the attempt that has
failed it was refused by the storage or had no answer of the extractor (`failure_explained`).
-/

namespace ReceiptReview

open Java Store ReceiptCase ReceiptExtractionProcessor

variable {P : Platform} {employees : Table Employee} {trace : List Commit} {commit : Commit}
variable {claim : ClaimedReceiptJob} {x x' : ReceiptCase} {operation : Operation}
variable {events : List AuditEvent}

/-! ## Claims -/

/-- The claim is for the job of this case. -/
structure ClaimedReceiptJob.Names (claim : ClaimedReceiptJob) (x : ReceiptCase) : Prop where
  jobId : x.job.id = claim.jobId
  receiptId : x.receipt.id = claim.receiptId
  imageStorageKey : x.job.imageStorageKey = claim.imageStorageKey
  contentType : x.receipt.contentType = claim.contentType

theorem ReceiptCase.Evolves.imageStorageKey (h : Evolves P employees x x') :
    x'.job.imageStorageKey = x.job.imageStorageKey := by
  induction h with
  | refl => rfl
  | step _ _ hstep ih => exact hstep.imageStorageKey.trans ih

theorem ClaimedReceiptJob.Names.evolves (h : claim.Names x) (hevolves : Evolves P employees x x') :
    claim.Names x' where
  jobId := hevolves.sameJob.id.trans h.jobId
  receiptId := hevolves.sameReceipt.id.trans h.receiptId
  imageStorageKey := hevolves.imageStorageKey.trans h.imageStorageKey
  contentType := hevolves.sameEvidence.contentType.trans h.contentType

/-- What a worker takes away is for a job of the snapshot that it has read. -/
theorem names_of_claimAvailable {db : Database} (hpaired : db.Paired) {workerId : JString}
    {batchSize leaseDuration : ℤ} {now : Instant} {tokens : Long → JString} {locked : List Long}
    {claims : List ClaimedReceiptJob} {changes : Database.Changes}
    (h : ReceiptJobClaimService.claimAvailable db workerId batchSize leaseDuration now tokens
      locked = .ok (claims, changes)) (hclaim : claim ∈ claims) :
    ∃ x, db.HasCase x ∧ claim.Names x := by
  obtain ⟨claimed, hclaimed, -, hclaims, -⟩ := ReceiptJobClaimService.claimAvailable_eq_ok h
  obtain ⟨job', hjob', htaken⟩ := Outcome.exists_of_forall₂_right hclaims hclaim
  obtain ⟨job, hjob, hclaims⟩ := hclaimed job' hjob'
  obtain ⟨x, hx, rfl⟩ := hpaired.of_job hjob
  have hwritten := (ReceiptExtractionJob.claim_eq_ok hclaims).2
  simp only [ReceiptJobClaimService.toClaimedJob, Outcome.bind_eq_ok,
    Outcome.orElseThrow_eq_ok, Outcome.pure_eq_ok] at htaken
  obtain ⟨receipt, hreceipt, rfl⟩ := htaken
  have hown : receipt = x.receipt.reread := by
    rw [hwritten, show ReceiptExtractionJob.receiptId _ = x.job.receiptId from rfl, hx.receiptId,
      Database.findReceipt_of_receiptRow hx.receipt] at hreceipt
    exact (Option.some.inj hreceipt).symm
  subst hown
  exact ⟨x, hx, by rw [hwritten], rfl, by rw [hwritten], rfl⟩

/-- Every claim that is handed out is for the job of a stored case. -/
theorem Run.names_of_handedOut (h : Run P employees trace) (hclaim : HandedOut trace claim) :
    ∃ x, (current employees trace).HasCase x ∧ claim.Names x := by
  obtain ⟨commit, hmem, hhanded⟩ := hclaim
  obtain ⟨newer, older, rfl⟩ := List.append_of_mem hmem
  have hthen : Run P employees (commit :: older) := h.suffix (List.suffix_append _ _)
  obtain ⟨hrun, -, -, -, snapshot, hsnapshot, hbody⟩ := hthen.head
  obtain ⟨earlier, hearlier, rfl⟩ := mem_snapshots_iff.mp hsnapshot
  have hnamed : ∃ x, (current employees earlier).HasCase x ∧ claim.Names x := by
    unfold Commit.handedOut at hhanded
    split at hhanded
    · rename_i claims hreply
      rw [hreply] at hbody
      obtain ⟨_, _, _, _, _, _, -, hclaimed⟩ := claimAvailable_of_reply hbody
      exact names_of_claimAvailable (hrun.suffix hearlier).current_refines.paired hclaimed hhanded
    · exact absurd hhanded List.not_mem_nil
  obtain ⟨x, hx, hnames⟩ := hnamed
  have hsuffix : earlier <:+ newer ++ commit :: older :=
    hearlier.trans ((List.suffix_cons _ _).trans (List.suffix_append _ _))
  obtain ⟨x', hx', hevolves⟩ := h.evolves hsuffix hx
  exact ⟨x', hx', hnames.evolves hevolves⟩

/-! ## Reports -/

/-- Every report in the history was requested by the thread of a claim. -/
theorem WorkerRun.reported {pool : WorkerPool} (h : WorkerRun P employees pool)
    (hmem : commit ∈ pool.shared.trace) (hof : commit.operation.isOfProcess = true) :
    ∃ claim request answer older, ⟨request, answer⟩ :: older <:+ pool.past claim ∧
      request.Runs commit.operation := by
  obtain ⟨newer, older, htrace⟩ := List.append_of_mem hmem
  obtain ⟨before, after, hbefore, hstep, hlater, rfl, hadded⟩ :=
    h.added (fun _ _ => WorkerRun.trace_cases) ⟨newer, htrace.symm⟩
      fun hnil => absurd (hnil.subset List.mem_cons_self) List.not_mem_nil
  obtain ⟨claim, past, request, answer, rest, -, hpast, -, hruns⟩ :=
    WorkerRun.served_by hbefore hstep hadded hof
  exact ⟨claim, request, answer, past, hpast ▸ Pool.past_suffix_later hlater claim, hruns⟩

theorem ProcessRequest.reply?_of_claim? {request : ProcessRequest}
    (h : request.claim? = some claim) (result : request.Result) :
    ∃ reply, request.reply? result = some reply := by
  cases request with
  | load | inspect | extract | now => cases h
  | completeQualityRejection | completeExtraction | scheduleRetry | failExtraction => exact ⟨_, rfl⟩

theorem ProcessRequest.isOfProcess_of_runs {request : ProcessRequest}
    (h : request.Runs operation) : operation.isOfProcess = true := by
  cases request with
  | load | inspect | extract | now => exact h.elim
  | completeQualityRejection | scheduleRetry | failExtraction =>
      obtain ⟨now, rfl⟩ := h
      rfl
  | completeExtraction =>
      obtain ⟨today, completedAt, rfl⟩ := h
      rfl

/-- Only the report of an extraction runs `completeExtraction`. -/
theorem ProcessRequest.eq_completeExtraction {request : ProcessRequest}
    {extraction : ExtractionResult} {extractedAt completedAt : Instant} {today : LocalDate}
    (h : request.Runs (.completeExtraction claim extraction extractedAt today completedAt)) :
    request = .completeExtraction claim extraction extractedAt := by
  cases request with
  | completeExtraction =>
      obtain ⟨_, _, hsame⟩ := h
      cases hsame
      rfl
  | _ => exact absurd h (by simp [Runs])

/-- The data of a receipt was reported, as it is or before it was written back. -/
theorem Run.extracted_by (h : Run P employees trace) (hx : (current employees trace).HasCase x)
    {data : ReceiptData} (hdata : x.receipt.originalData = some data) :
    ∃ commit ∈ trace, ∃ claim extraction extractedAt today completedAt proposal,
      commit.operation = .completeExtraction claim extraction extractedAt today completedAt ∧
      claim.receiptId = x.receipt.id ∧ extraction.data = some proposal ∧
      (data = proposal ∨ data = proposal.rebuild) := by
  induction trace generalizing x data with
  | nil => exact absurd hx.receipt (by simp [current, Database.initial, Database.receiptRow])
  | cons commit trace ih =>
      -- what the earlier history tells of the receipt is still told
      have hearlier : ∀ {y data}, (current employees trace).HasCase y →
          y.receipt.originalData = some data → x.receipt.id = y.receipt.id →
          ∃ earlier ∈ commit :: trace, ∃ claim extraction extractedAt today completedAt proposal,
            earlier.operation =
                .completeExtraction claim extraction extractedAt today completedAt ∧
              claim.receiptId = x.receipt.id ∧ extraction.data = some proposal ∧
              (data = proposal ∨ data = proposal.rebuild) := by
        intro y data hy hbefore hid
        rw [hid]
        obtain ⟨earlier, hmem, hreported⟩ := ih h.head.1 hy hbefore
        exact ⟨earlier, List.mem_cons_of_mem _ hmem, hreported⟩
      rcases h.created_or_moved hx with
        ⟨_, _, _, _, _, _, _, _, hoperation, rfl, -⟩ | ⟨y, hy, hmoves⟩
      · -- an upload brings no data
        have hpermitted := h.head.2.2.1
        rw [hoperation] at hpermitted
        obtain ⟨call, contentType, now, rfl, -, -⟩ := hpermitted
        exact absurd hdata (by simp [intake, ReceiptUploadService.acceptedReceipt, Receipt.new])
      · have hid := hmoves.sameReceipt.id
        rcases hmoves with ⟨rfl, -⟩ | hstep
        · exact hearlier hy hdata hid
        · rcases hstep.delivers_or_keeps hy.receiptId with
            ⟨_, ⟨claim, houtcome, hreceipt, -⟩, -, -, rfl⟩ | ⟨-, hkept⟩
          · -- the report brings the data of its extraction
            rw [hdata] at houtcome
            refine ⟨commit, List.mem_cons_self, claim, ?_⟩
            have hclaim : claim.receiptId = x.receipt.id :=
              (hreceipt.trans hy.receiptId).trans hid.symm
            unfold Operation.outcome at houtcome
            split at houtcome
            · cases houtcome
            · cases houtcome
            · rename_i extraction extractedAt today completedAt hoperation
              obtain ⟨rfl, hextracted⟩ := Prod.mk.inj (Option.some.inj houtcome)
              exact ⟨extraction, extractedAt, today, completedAt, data, hoperation, hclaim,
                hextracted, .inl rfl⟩
            · cases houtcome
          · rcases hkept with hkept | ⟨-, hread⟩
            · exact hearlier hy (hkept ▸ hdata) hid
            · -- the row was written back as it was read
              rw [hdata, Receipt.originalData_reread] at hread
              obtain ⟨before, hbefore, rfl⟩ := Option.map_eq_some_iff.mp hread.symm
              obtain ⟨earlier, hmem, claim, extraction, extractedAt, today, completedAt, proposal,
                hoperation, hclaim, hproposal, hsame⟩ := hearlier hy hbefore hid
              refine ⟨earlier, hmem, claim, extraction, extractedAt, today, completedAt, proposal,
                hoperation, hclaim, hproposal, .inr ?_⟩
              rcases hsame with rfl | rfl
              · rfl
              · exact proposal.rebuild_rebuild

/-- A failed job stays as its report has left it. -/
theorem ReceiptCase.Step.error_of_failed (h : Step employees operation x events x')
    (hfailed : x.job.status = .failed) :
    x'.job.lastErrorCode = x.job.lastErrorCode ∧ x'.job.attemptCount = x.job.attemptCount := by
  have hended : x.job.status.IsFinal := .inr hfailed
  rcases h.of_ended hended.not_isPending with ⟨now, today, -, hjob⟩ | ⟨-, hjob⟩ <;> rw [hjob] <;>
    exact ⟨rfl, rfl⟩

/-- The step by which a job fails reports its failure. -/
theorem ReceiptCase.Step.reports_failure (h : Step employees operation x events x')
    (hnot : x.job.status ≠ .failed) (hfailed : x'.job.status = .failed) :
    ∃ claim errorCode errorMessage now,
      operation = .failExtraction claim errorCode errorMessage now ∧ claim.jobId = x.job.id ∧
      x'.job.lastErrorCode = some errorCode ∧ x'.job.attemptCount = x.job.attemptCount := by
  obtain ⟨claim, errorCode, errorMessage, now, rfl⟩ := h.of_failed hnot hfailed
  cases h with
  | failed hjobId _ hfail =>
      rw [(ReceiptExtractionJob.fail_eq_ok hfail).2]
      exact ⟨claim, errorCode, errorMessage, now, rfl, hjobId, rfl, rfl⟩

/-- A job has failed by a report, under the claim that has held it last. -/
theorem Run.failed_by (h : Run P employees trace) (hdisciplined : Disciplined trace)
    (hx : (current employees trace).HasCase x) (hfailed : x.job.status = .failed) :
    ∃ commit ∈ trace, ∃ claim errorCode errorMessage now,
      commit.operation = .failExtraction claim errorCode errorMessage now ∧
      claim.jobId = x.job.id ∧ claim.attemptCount = x.job.attemptCount ∧
      x.job.lastErrorCode = some errorCode := by
  induction trace generalizing x with
  | nil => exact absurd hx.receipt (by simp [current, Database.initial, Database.receiptRow])
  | cons commit trace ih =>
      rcases h.created_or_moved hx with
        ⟨_, _, _, _, _, _, _, _, -, rfl, -⟩ | ⟨y, hy, hmoves⟩
      · exact absurd hfailed (by simp [intake, ReceiptExtractionJob.new])
      · rw [hmoves.sameJob.id]
        by_cases hbefore : y.job.status = .failed
        · -- the job had failed before, and keeps its error
          obtain ⟨earlier, hmem, claim, errorCode, errorMessage, now, hoperation, hjobId, hattempts,
            hcode⟩ := ih h.head.1 hdisciplined.1 hy hbefore
          have hkept : x.job.lastErrorCode = y.job.lastErrorCode ∧
              x.job.attemptCount = y.job.attemptCount := by
            rcases hmoves with ⟨rfl, -⟩ | hstep
            · exact ⟨rfl, rfl⟩
            · exact hstep.error_of_failed hbefore
          exact ⟨earlier, List.mem_cons_of_mem _ hmem, claim, errorCode, errorMessage, now,
            hoperation, hjobId, hattempts.trans hkept.2.symm, hkept.1.trans hcode⟩
        · rcases hmoves with ⟨rfl, -⟩ | hstep
          · exact absurd hfailed hbefore
          · obtain ⟨claim, errorCode, errorMessage, now, hoperation, hjobId, hcode, hattempts⟩ :=
              hstep.reports_failure hbefore hfailed
            -- the report was made under the last claim, which counts all attempts
            have hlive := h.live_of_claim? hdisciplined
              (show commit.operation.claim? = some claim by rw [hoperation]; rfl)
            have hcount := h.head.1.attemptCount_of_live hlive hy hjobId.symm
            exact ⟨commit, List.mem_cons_self, claim, errorCode, errorMessage, now, hoperation,
              hjobId, hcount.trans hattempts.symm, hcode⟩

/-! ## The pipeline -/

section Pipeline

variable {ι : Type} [DecidableEq ι] {collaborators : Collaborators} {exclusive : Prop}
variable {calls : ι → UploadCall} {bucket : Bucket} {pool pool' : PipelinePool ι}

theorem PipelineRun.trace_suffix_step
    (h : PipelineRun P employees collaborators exclusive calls bucket pool)
    (hstep : Pool.Step (pipelineRules P employees collaborators exclusive calls) pool pool') :
    pool.shared.trace <:+ pool'.shared.trace := by
  rcases h.workers_step hstep with hsame | hworkers
  · have htrace : pool'.shared.trace = pool.shared.trace :=
      congrArg (fun workers => workers.shared.trace) hsame
    exact htrace ▸ List.suffix_rfl
  · rcases h.workers.trace_cases hworkers with hsame | ⟨commit, hcons⟩
    · have htrace : pool'.shared.trace = pool.shared.trace := hsame
      exact htrace ▸ List.suffix_rfl
    · have htrace : pool'.shared.trace = commit :: pool.shared.trace := hcons
      exact htrace ▸ List.suffix_cons _ _

/-- The history only grows. -/
theorem PipelineRun.trace_suffix
    (h : PipelineRun P employees collaborators exclusive calls bucket pool)
    (hlater : Relation.ReflTransGen
      (Pool.Step (pipelineRules P employees collaborators exclusive calls)) pool pool') :
    pool.shared.trace <:+ pool'.shared.trace :=
  Pool.log_later (·.shared.trace)
    (fun _ _ hbetween => PipelineRun.trace_suffix_step (h.later hbetween)) hlater

variable (P employees collaborators exclusive calls bucket) in
/-- The exchange of the attempt is this step of the run. -/
structure ServedAt (pool : PipelinePool ι) (claim : ClaimedReceiptJob)
    (exchange : Exchange ProcessRequest ProcessRequest.Answer) (older : ProcessTranscript)
    (before after : PipelinePool ι) : Prop where
  run : PipelineRun P employees collaborators exclusive calls bucket before
  step : Pool.Step (pipelineRules P employees collaborators exclusive calls) before after
  later : Relation.ReflTransGen
    (Pool.Step (pipelineRules P employees collaborators exclusive calls)) after pool
  requested : before.past claim = older
  answered : after.past claim = exchange :: older
  handed : HandedOut before.shared.trace claim
  serves : collaborators.Serves before.shared.bucket exchange.request exchange.answer
  tells : ProcessTells claim older exchange.request

/-- Each exchange of an attempt is a step of the run. -/
theorem PipelineRun.served (h : PipelineRun P employees collaborators exclusive calls bucket pool)
    {exchange : Exchange ProcessRequest ProcessRequest.Answer} {older : ProcessTranscript}
    (hpast : exchange :: older <:+ pool.past claim) : ∃ before after,
    ServedAt P employees collaborators exclusive calls bucket pool claim exchange older before
      after := by
  obtain ⟨before, after, next, hbefore, hstep, hlater, hthread, hserves, hafter⟩ :=
    Pool.Run.served h hpast
  refine ⟨before, after, hbefore, hstep, hlater, Pool.past_of_thread hthread, hafter, ?_,
    hserves.1, (PipelineRun.tells hbefore hthread).1⟩
  have hworkers := PipelineRun.workers hbefore
  refine hworkers.supervised.handed claim ((hworkers.mem_started claim).mpr ?_)
  rw [Pool.threads_map, hthread]
  simp

/-- What is loaded for a claim is told of the image of its receipt, which is there. -/
theorem PipelineRun.loaded (hdigits : ∀ bytes, (P.sha256 bytes).length = 64)
    (hfree : CollisionFree P calls)
    (h : PipelineRun P employees collaborators exclusive calls bucket pool)
    {answer : Except Failure (List UInt8)} {before after : PipelinePool ι}
    (hserved : ServedAt P employees collaborators exclusive calls bucket pool claim
      ⟨.load claim.imageStorageKey, answer⟩ [] before after) :
    ∃ x bytes outcome, (current employees pool.shared.trace).HasCase x ∧ claim.Names x ∧
      P.sha256 bytes = x.receipt.imageSha256 ∧
      before.shared.bucket (collaborators.storage.keyPrefix ++ claim.imageStorageKey) =
        some bytes ∧
      S3Outcome.Tells (some bytes) outcome ∧ answer = S3ReceiptImageStorage.read outcome := by
  obtain ⟨outcome, htells, hanswer⟩ := hserved.serves
  obtain ⟨x, hx, hnames⟩ := hserved.run.run.names_of_handedOut hserved.handed
  obtain ⟨i, hshows⟩ := hserved.run.images.showsImage hx
  have hobject := hshows.object (hserved.run.images.deposited hfree hdigits)
  rw [hnames.imageStorageKey] at hobject
  have hsuffix := hserved.run.trace_suffix (.head hserved.step hserved.later)
  obtain ⟨x', hx', hevolves⟩ := h.run.evolves hsuffix hx
  refine ⟨x', (calls i).bytes, outcome, hx', hnames.evolves hevolves, ?_, hobject, ?_, hanswer⟩
  · rw [hevolves.sameReceipt.imageSha256, hshows.digest]
  · rw [← hobject]
    exact htells

/-- Each report of the history ends the transcript of an attempt that tells of it. -/
theorem PipelineRun.reported
    (h : PipelineRun P employees collaborators exclusive calls bucket pool)
    (hmem : commit ∈ pool.shared.trace) (hof : commit.operation.isOfProcess = true) :
    ∃ claim request answer older, ⟨request, answer⟩ :: older <:+ pool.past claim ∧
      ProcessTells claim older request ∧ request.Runs commit.operation := by
  obtain ⟨claim, request, answer, older, hpast, hruns⟩ := h.workers.reported hmem hof
  obtain ⟨before, after, hserved⟩ := h.served hpast
  exact ⟨claim, request, answer, older, hpast, hserved.tells, hruns⟩

/-- The image that was inspected is the one of the receipt, and so was the finding. -/
theorem PipelineRun.inspected (hdigits : ∀ bytes, (P.sha256 bytes).length = 64)
    (hfree : CollisionFree P calls)
    (h : PipelineRun P employees collaborators exclusive calls bucket pool) {image : List UInt8}
    {quality : ImageQualityResult} (hpast : inspected claim image quality <:+ pool.past claim) :
    ∃ x decoded, (current employees pool.shared.trace).HasCase x ∧ claim.Names x ∧
      P.sha256 image = x.receipt.imageSha256 ∧ collaborators.decodes image decoded ∧
      ImageQualityInspector.inspect collaborators.quality image decoded = .ok quality := by
  obtain ⟨before, after, hloaded⟩ := h.served ((List.suffix_cons _ _).trans hpast)
  obtain ⟨x, bytes, outcome, hx, hnames, hdigest, -, htells, hread⟩ :=
    h.loaded hdigits hfree hloaded
  obtain rfl := S3ReceiptImageStorage.read_eq_ok.mp hread.symm
  obtain rfl : bytes = image := Option.some.inj htells
  obtain ⟨_, _, hserved⟩ := h.served hpast
  obtain ⟨decoded, hdecodes, hinspect⟩ := hserved.serves
  exact ⟨x, decoded, hx, hnames, hdigest, hdecodes, hinspect.symm⟩

/-- The data of a receipt was read from what the provider has answered about the image of
that very receipt, which has the least size; and possibly read back from the row since. -/
theorem extracted_from_own_image (hdigits : ∀ bytes, (P.sha256 bytes).length = 64)
    (hfree : CollisionFree P calls)
    (h : PipelineRun P employees collaborators exclusive calls bucket pool) {id : Long}
    {receipt : Receipt}
    (hreceipt : (current employees pool.shared.trace).receiptRow id = some receipt)
    {data : ReceiptData} (hdata : receipt.originalData = some data) :
    ∃ image width height fileName response outputText proposal,
      P.sha256 image = receipt.imageSha256 ∧
      collaborators.decodes image (.image width height) ∧
      collaborators.quality.minWidth ≤ width ∧ collaborators.quality.minHeight ≤ height ∧
      collaborators.answers (.post (OpenAiReceiptExtractor.body collaborators.openAi
        ⟨image, receipt.contentType, fileName⟩)) (.response response) ∧
      OpenAiReceiptExtractor.findOutputText response = .ok outputText ∧
      collaborators.answers (.readValue outputText) (.value (some proposal)) ∧
      (data = proposal ∨ data = proposal.rebuild) ∧
      ∀ request, OpenAiReceiptExtractor.body collaborators.openAi request =
          OpenAiReceiptExtractor.body collaborators.openAi
            ⟨image, receipt.contentType, fileName⟩ →
        request.image = image := by
  have hpaired := h.run.current_refines.paired
  obtain ⟨x, hx, rfl⟩ := hpaired.of_receipt hreceipt
  obtain ⟨commit, hmem, claimed, extraction, extractedAt, today, completedAt, proposal, hoperation,
    hfor, hextracted, hsame⟩ := h.run.extracted_by hx hdata
  -- the report of the proposal, and what its attempt has been told before
  obtain ⟨claim, request, answer, older, hpast, htells, hruns⟩ :=
    h.reported hmem (by rw [hoperation]; rfl)
  rw [hoperation] at hruns
  obtain rfl := ProcessRequest.eq_completeExtraction hruns
  obtain ⟨rfl, image, quality, hacceptable, rfl⟩ := htells
  have hextract := (List.suffix_cons _ _).trans ((List.suffix_cons _ _).trans hpast)
  have hinspect := (List.suffix_cons _ _).trans hextract
  -- the image that was extracted is the one that was loaded for the receipt
  obtain ⟨y, decoded, hy, hnames, hdigest, hdecodes, hquality⟩ :=
    h.inspected hdigits hfree hinspect
  obtain rfl := hpaired.unique hy hx (hnames.receiptId.trans hfor)
  obtain ⟨width, height, rfl, hwidth, hheight⟩ :=
    ImageQualityInspector.inspect_acceptable hquality hacceptable
  obtain ⟨before, after, hserved⟩ := h.served hextract
  obtain ⟨response, outputText, hposted, htext, hread⟩ :=
    Collaborators.Extracts.extracted hserved.serves
  rw [hextracted] at hread
  rw [hnames.contentType]
  exact ⟨image, width, height, claimed.fileName, response, outputText, proposal, hdigest, hdecodes,
    hwidth, hheight, hposted, htext, hread, hsame,
    fun _ hbody => OpenAiReceiptExtractor.image_of_body hbody⟩

variable (P employees collaborators exclusive calls bucket) in
/-- The storage has thrown this exception when the attempt has read its image, which was
there, and the attempt has reported it: at once if it is not to be retried, and else at the
limit of attempts. -/
structure LoadRefused (pool : PipelinePool ι) (claim : ClaimedReceiptJob) (image : List UInt8)
    (e : Failure) : Prop where
  reported : ∃ answer, [⟨.failExtraction claim (.ofString e.simpleName) e.message, answer⟩,
    ⟨.load claim.imageStorageKey, .error e⟩] <:+ pool.past claim
  served : ∃ before after, ServedAt P employees collaborators exclusive calls bucket pool claim
      ⟨.load claim.imageStorageKey, .error e⟩ [] before after ∧
    before.shared.bucket (collaborators.storage.keyPrefix ++ claim.imageStorageKey) = some image
  storage : ∃ message retryable, e = .receiptImageStorage message retryable
  limit : e.isRetryable = true → MAX_ATTEMPTS ≤ claim.attemptCount

/-- The extractor has thrown this exception for the image, which was loaded and found
acceptable, and the attempt has reported it as the last one. -/
structure ExtractionThrown (pool : PipelinePool ι) (claim : ClaimedReceiptJob)
    (image : List UInt8) (e : Failure) : Prop where
  reported : ∃ answer quality, quality.status = .acceptable ∧
    ⟨.failExtraction claim (.ofString e.simpleName) e.message, answer⟩ ::
      ⟨.extract (extractionOf claim image), .error e⟩ :: inspected claim image quality <:+
        pool.past claim
  extractor : ∃ message, e = OpenAiReceiptExtractor.extractionException message
  limit : MAX_ATTEMPTS ≤ claim.attemptCount

variable (P employees collaborators exclusive calls bucket) in
/-- The job has failed by the report of the attempt under its last claim, with the
exception that the storage or the extractor has thrown in this attempt. -/
structure FailedAttempt (pool : PipelinePool ι) (job : ReceiptExtractionJob)
    (claim : ClaimedReceiptJob) (image : List UInt8) (e : Failure) : Prop where
  jobId : claim.jobId = job.id
  attemptCount : claim.attemptCount = job.attemptCount
  committed : ∃ commit ∈ pool.shared.trace, ∃ now,
    commit.operation = .failExtraction claim (.ofString e.simpleName) e.message now
  lastErrorCode : job.lastErrorCode = some (.ofString e.simpleName)
  cause : LoadRefused P employees collaborators exclusive calls bucket pool claim image e ∨
    ExtractionThrown pool claim image e

/-- What the last attempt of a failed job has met: the storage has thrown for the image of
the receipt, which was there, or the extractor has thrown.  Below the limit of attempts the
storage has refused for good. -/
theorem failure_explained (hdigits : ∀ bytes, (P.sha256 bytes).length = 64)
    (hfree : CollisionFree P calls)
    (h : PipelineRun P employees collaborators exclusive calls bucket pool) {id : Long}
    {job : ReceiptExtractionJob}
    (hjob : (current employees pool.shared.trace).findJob id = some job)
    (hfailed : job.status = .failed) :
    ∃ receipt image claim e,
      (current employees pool.shared.trace).receiptRow job.receiptId = some receipt ∧
      P.sha256 image = receipt.imageSha256 ∧
      FailedAttempt P employees collaborators exclusive calls bucket pool job claim image e := by
  have hpaired := h.run.current_refines.paired
  obtain ⟨x, hx, rfl⟩ := hpaired.of_job hjob
  obtain ⟨commit, hmem, claimed, errorCode, errorMessage, now, hoperation, hfor, hattempts,
    hcode⟩ := h.run.failed_by h.workers.supervised.disciplined hx hfailed
  obtain ⟨claim, request, answer, older, hpast, htells, hruns⟩ :=
    h.reported hmem (by rw [hoperation]; rfl)
  rw [hoperation] at hruns
  obtain rfl := ProcessRequest.eq_failExtraction hruns
  obtain ⟨rfl, e, hfailedBy, hcause, rfl, rfl⟩ := htells
  rw [hx.receiptId]
  -- the exchange before the report is the one that has thrown
  cases hfailedBy with
  | load =>
      obtain ⟨before, after, hserved⟩ := h.served ((List.suffix_cons _ _).trans hpast)
      obtain ⟨y, image, outcome, hy, hnames, hdigest, hobject, htells, hread⟩ :=
        h.loaded hdigits hfree hserved
      obtain rfl := hy.eq_of_jobId hx (hnames.jobId.trans hfor)
      refine ⟨y.receipt, image, claimed, e, hy.receipt, hdigest, hfor, hattempts,
        ⟨commit, hmem, now, hoperation⟩, hcode, .inl ?_⟩
      refine ⟨⟨answer, hpast⟩, ⟨before, after, hserved, hobject⟩, ?_, fun hretryable => ?_⟩
      · -- an image that is there is found, so what was thrown is an error of the storage
        rcases S3ReceiptImageStorage.read_eq_error htells hread.symm with rfl | ⟨message, rfl⟩
        · exact absurd hcause (by simp [Failure.isFatal, Failure.isRetryable])
        · exact ⟨message, _, rfl⟩
      · have hnotFatal : e.isFatal = false := isFatal_of_isRetryable hretryable
        exact (hcause.resolve_left (by simp [hnotFatal])).2
  | @extract image quality hnotFatal hacceptable =>
      have hextract := (List.suffix_cons _ _).trans hpast
      obtain ⟨y, decoded, hy, hnames, hdigest, -, -⟩ :=
        h.inspected hdigits hfree ((List.suffix_cons _ _).trans hextract)
      obtain rfl := hy.eq_of_jobId hx (hnames.jobId.trans hfor)
      obtain ⟨before, after, hserved⟩ := h.served hextract
      exact ⟨y.receipt, image, claimed, e, hy.receipt, hdigest, hfor, hattempts,
        ⟨commit, hmem, now, hoperation⟩, hcode, .inr
          { reported := ⟨answer, quality, hacceptable, hpast⟩
            extractor := Collaborators.Extracts.extracted hserved.serves
            limit := (hcause.resolve_left (by simp [hnotFatal])).2 }⟩

/-- A report that returned is in the history. -/
theorem PipelineRun.committed
    (h : PipelineRun P employees collaborators exclusive calls bucket pool)
    {request : ProcessRequest} {result : request.Result} {older : ProcessTranscript}
    (hpast : ⟨request, .ok result⟩ :: older <:+ pool.past claim)
    (hclaim : request.claim? = some claim) :
    ∃ commit ∈ pool.shared.trace,
      commit.operation.isOfProcess = true ∧ commit.operation.claim? = some claim := by
  obtain ⟨before, after, next, hbefore, hstep, hlater, -, ⟨-, hserves⟩, -⟩ :=
    Pool.Run.served h hpast
  have hsuffix := PipelineRun.trace_suffix (Pool.Run.step hbefore hstep) hlater
  obtain ⟨reply, hreply⟩ := ProcessRequest.reply?_of_claim? hclaim result
  simp only [hreply] at hserves
  obtain ⟨commit, hruns, -, -, hafter⟩ := hserves
  have hmem : commit ∈ after.shared.trace := by
    rw [hafter]
    exact List.mem_cons_self
  exact ⟨commit, hsuffix.subset hmem, ProcessRequest.isOfProcess_of_runs hruns,
    (ProcessRequest.claim?_of_runs hruns).trans hclaim⟩

/-- An attempt that has ended has reported under its claim, unless its last request has
thrown an exception of a transaction, or one that is no exception of the storage. -/
theorem attempt_reported
    (h : PipelineRun P employees collaborators exclusive calls bucket pool)
    {outcome : Except Failure Receipt} (hended : pool.Ended claim outcome) :
    match outcome with
    | .ok _ => ∃ commit ∈ pool.shared.trace,
        commit.operation.isOfProcess = true ∧ commit.operation.claim? = some claim
    | .error e => ∃ request earlier, pool.past claim = ⟨request, .error e⟩ :: earlier ∧
        (request.claim? = some claim ∨ e = .other ∧
          ((∃ storageKey, request = .load storageKey) ∨ ∃ image, request = .inspect image)) := by
  obtain ⟨request, answer, earlier, hpast, hends⟩ := h.tells hended
  have hserved : ⟨request, answer⟩ :: earlier <:+ pool.past claim := hpast ▸ List.suffix_rfl
  cases outcome with
  | ok receipt =>
      obtain ⟨hclaim, result, rfl⟩ := hends
      exact h.committed hserved hclaim
  | error e =>
      obtain ⟨rfl, hretryable, hfatal⟩ := hends
      refine ⟨request, earlier, hpast, ?_⟩
      obtain ⟨_, _, hat⟩ := h.served hserved
      have hserves := hat.serves
      have htells := hat.tells
      -- an exception that is to be retried or fatal would have been handled
      cases request with
      | load storageKey =>
          obtain ⟨outcome, -, hread⟩ := hserves
          rcases S3ReceiptImageStorage.read_throws hread.symm with rfl | rfl | ⟨message, r, rfl⟩
          · exact .inr ⟨rfl, .inl ⟨storageKey, rfl⟩⟩
          · exact absurd hfatal (by simp [Failure.isFatal])
          · cases r
            · exact absurd hfatal (by simp [Failure.isFatal])
            · exact absurd hretryable (by simp [Failure.isRetryable])
      | inspect image =>
          obtain ⟨decoded, -, hinspect⟩ := hserves
          exact .inr ⟨ImageQualityInspector.inspect_eq_error hinspect.symm, .inr ⟨image, rfl⟩⟩
      | extract request =>
          obtain ⟨message, rfl⟩ := Collaborators.Extracts.extracted hserves
          exact absurd hretryable (by simp [OpenAiReceiptExtractor.extractionException,
            Failure.isRetryable])
      | now =>
          obtain ⟨now, hnow⟩ := hserves
          cases hnow
      | completeQualityRejection | completeExtraction | scheduleRetry | failExtraction =>
          exact .inl (congrArg some htells.1)

end Pipeline

/-! ## Two attempts -/

namespace Sample

/-- The response to a request, whose text the mapper reads as data. -/
def answerExtractor : (request : ExtractorRequest) → request.Answer
  | .post _ => .response (some (.ofEntries [("output", .array [.ofEntries [("content", .array
      [.ofEntries [("type", .ofString "output_text"), ("text", .ofString "data")]])]])]))
  | .readValue _ => .value (some goodData)

/-- Every image is large enough, and every response is the same. -/
def collaborators : Collaborators where
  storage := ⟨[]⟩
  quality := ⟨600, 600⟩
  openAi :=
    { connectTimeout := 3000000000
      responseTimeout := 30000000000
      apiKey := .ofString "test-key"
      model := .ofString "test-model" }
  decodes _ decoded := decoded = .image 800 1200
  answers request answer := answer = answerExtractor request

/-- The calls after the job of the first upload has been claimed. -/
def claimedCalls : CallsState Bool :=
  ((commitFor imagePlatform staff imageState.calls none (claimAll 1 "token")).map Prod.snd).getD
    imageState.calls

/-- What the worker has taken away. -/
def takenClaim : ClaimedReceiptJob :=
  { firstClaim 1 "token" with
    imageStorageKey :=
      ((handedOut claimedCalls.trace).map ClaimedReceiptJob.imageStorageKey).headD [] }

/-- What the client answers: the storage may be closed to the worker. -/
def readImage (refused : Bool) (bucket : Bucket) (storageKey : JString) : S3Outcome :=
  if refused then .s3Exception 403 none
  else
    match bucket storageKey with
    | some bytes => .object bytes
    | none => .noSuchKeyException

/-- A report is committed on the current database. -/
def report (s : ImagesState Bool) (operation : Operation) :
    Except Failure Receipt × ImagesState Bool :=
  match commitFor imagePlatform staff s.calls none operation with
  | some (.receipt receipt, calls) => (.ok receipt, { s with calls })
  | _ => (.error .optimisticLockingFailure, s)

def answerProcess (refused : Bool) (request : ProcessRequest) (s : ImagesState Bool) :
    request.Answer × ImagesState Bool :=
  match request with
  | .load storageKey =>
      (S3ReceiptImageStorage.read (readImage refused s.objects.bucket storageKey), s)
  | .inspect image =>
      (ImageQualityInspector.inspect collaborators.quality image (.image 800 1200), s)
  | .extract request =>
      (((OpenAiReceiptExtractor.extract collaborators.openAi request).run
        (fun request s => (answerExtractor request, s)) ()).1, s)
  | .now => (.ok 2, s)
  | .completeExtraction claim extraction extractedAt =>
      report s (.completeExtraction claim extraction extractedAt 0 3)
  | .failExtraction claim errorCode errorMessage =>
      report s (.failExtraction claim errorCode errorMessage 3)
  | .completeQualityRejection .. | .scheduleRetry .. => (.error .other, s)

theorem report_cases (s : ImagesState Bool) (operation : Operation) :
    (∃ (commit : Commit) (receipt : Receipt), commit.operation = operation ∧
      commit.reply = .receipt receipt ∧
      Extends imagePlatform staff s.calls.trace commit.operation commit.reply
        (commit :: s.calls.trace) ∧
      report s operation = (.ok receipt, { s with calls := s.calls.add none commit })) ∨
    report s operation = (.error .optimisticLockingFailure, s) := by
  unfold report
  split
  · rename_i receipt calls hcommit
    obtain ⟨commit, hoperation, hreply, hextends, rfl⟩ := commitFor_eq_some hcommit
    exact .inl ⟨commit, receipt, hoperation, hreply, hextends, rfl⟩
  · exact .inr rfl

/-- The answers, as the pipeline sees them. -/
def answerPipeline (refused : Bool) (request : ProcessRequest) (s : PipelineState Bool) :
    request.Answer × PipelineState Bool :=
  ((answerProcess refused request s.images.shared).1,
    { s with images.shared := (answerProcess refused request s.images.shared).2 })

/-- An attempt sees nothing but what the uploads share. -/
theorem run_answerPipeline (refused : Bool) (p : ProcessProgram Receipt) (s : PipelineState Bool) :
    p.run (answerPipeline refused) s =
      ((p.run (answerProcess refused) s.images.shared).1,
        { s with images.shared := (p.run (answerProcess refused) s.images.shared).2 }) := by
  induction p generalizing s with
  | done result => rfl
  | call r next ih => exact ih _ _

theorem tells_readImage (refused : Bool) (bucket : Bucket) (storageKey : JString) :
    (readImage refused bucket storageKey).Tells (bucket storageKey) := by
  unfold readImage
  split
  · trivial
  · split
    · rename_i hobject
      exact hobject
    · rename_i hmissing
      exact hmissing

theorem serves_answerPipeline (refused : Bool) (s : PipelineState Bool) (request : ProcessRequest) :
    (pipelineRules imagePlatform staff collaborators False imageCalls).serves takenClaim s request
      (answerPipeline refused request s).1 (answerPipeline refused request s).2 := by
  cases request with
  | load storageKey =>
      refine ⟨⟨readImage refused s.bucket storageKey, tells_readImage _ _ _, rfl⟩, ?_⟩
      cases (answerPipeline refused (.load storageKey) s).1 <;> rfl
  | inspect image =>
      refine ⟨⟨.image 800 1200, rfl, rfl⟩, ?_⟩
      cases (answerPipeline refused (.inspect image) s).1 <;> rfl
  | extract request =>
      refine ⟨Program.executes_run (fun _ => rfl) (fun _ _ => rfl) _ _, ?_⟩
      cases (answerPipeline refused (.extract request) s).1 <;> rfl
  | now => exact ⟨⟨2, rfl⟩, rfl⟩
  | completeExtraction claim extraction extractedAt =>
      rcases report_cases s.images.shared
          (.completeExtraction claim extraction extractedAt 0 3) with
        ⟨commit, receipt, hoperation, hreply, hextends, hreport⟩ | hreport
      · simp only [answerPipeline, answerProcess, hreport]
        exact ⟨fun e he => absurd he (by simp), commit, ⟨0, 3, hoperation⟩, hreply, hextends, rfl⟩
      · simp only [answerPipeline, answerProcess, hreport]
        refine ⟨fun e he => ?_, rfl⟩
        cases he
        exact ⟨rfl, rfl⟩
  | failExtraction claim errorCode errorMessage =>
      rcases report_cases s.images.shared (.failExtraction claim errorCode errorMessage 3) with
        ⟨commit, receipt, hoperation, hreply, hextends, hreport⟩ | hreport
      · simp only [answerPipeline, answerProcess, hreport]
        exact ⟨fun e he => absurd he (by simp), commit, ⟨3, hoperation⟩, hreply, hextends, rfl⟩
      · simp only [answerPipeline, answerProcess, hreport]
        refine ⟨fun e he => ?_, rfl⟩
        cases he
        exact ⟨rfl, rfl⟩
  | completeQualityRejection | scheduleRetry =>
      refine ⟨fun e he => ?_, rfl⟩
      cases he
      exact ⟨rfl, rfl⟩

/-- The job of the first upload is claimed. -/
theorem claimedCalls_run :
    ∃ images : ImagesPool Bool,
      ImagesRun imagePlatform staff collaborators.storage False imageCalls (fun _ => none) images ∧
      images.shared = ⟨claimedCalls, imageState.objects⟩ := by
  obtain ⟨images, hrun, hshared⟩ := Pool.Run.alone (serves_answerStoring false)
    (.step .initial (.start rfl rfl)) (Pool.threads_update_self ..)
  have hstored : images.shared = imageState := hshared
  have hclaims : ∃ taken,
      commitFor imagePlatform staff imageState.calls none (claimAll 1 "token") = some taken :=
    Option.isSome_iff_exists.mp (by decide +kernel)
  obtain ⟨⟨reply, calls⟩, hclaims⟩ := hclaims
  have hcalls : claimedCalls = calls := by rw [claimedCalls, hclaims]; rfl
  obtain ⟨commit, hoperation, -, hextends, rfl⟩ := commitFor_eq_some hclaims
  have hothers : CallsState.Others imagePlatform staff images.shared.calls claimedCalls := by
    rw [hstored, hcalls]
    exact ⟨commit, by rw [hoperation]; rfl, by rw [hoperation]; trivial, hextends, rfl⟩
  have hobjects : imageState.objects = images.shared.objects := by rw [hstored]
  have hstep : Pool.Step (imagesRules imagePlatform staff collaborators.storage False imageCalls)
      images { images with shared := ⟨claimedCalls, imageState.objects⟩ } :=
    .others (.inl ⟨hothers, hobjects⟩)
  exact ⟨_, .step hrun hstep, rfl⟩

/-- What is shared after the attempt of the claim. -/
def attempted (refused : Bool) : Except Failure Receipt × ImagesState Bool :=
  (ReceiptExtractionProcessor.process takenClaim).run (answerProcess refused)
    ⟨claimedCalls, imageState.objects⟩

theorem attempted_run (refused : Bool) :
    ∃ pool : PipelinePool Bool,
      PipelineRun imagePlatform staff collaborators False imageCalls (fun _ => none) pool ∧
      pool.shared.trace = (attempted refused).2.calls.trace ∧
      pool.Ended takenClaim (attempted refused).1 := by
  obtain ⟨⟨shared, threads⟩, hrun, hshared⟩ := claimedCalls_run
  obtain rfl : shared = ⟨claimedCalls, imageState.objects⟩ := hshared
  have hothers : ∀ commit ∈ claimedCalls.trace,
      commit.operation.isOfProcess = false ∧ commit.operation.claim? = none := by
    decide +kernel
  have hdisciplined : Disciplined claimedCalls.trace :=
    disciplined_of_calls (by decide +kernel) (by decide +kernel)
  have hpipeline := pipelineRun_of_images hrun hdisciplined hothers
  have hhanded : HandedOut claimedCalls.trace takenClaim := mem_handedOut.mp (by decide +kernel)
  have hback : ¬ HandedBack claimedCalls.trace takenClaim := by
    intro hback
    obtain ⟨commit, hmem, now, hoperation⟩ := hback
    have hnone := (hothers commit hmem).2
    rw [hoperation] at hnone
    cases hnone
  obtain ⟨pool, hpool, hafter, hended⟩ := Pool.Run.alone_ends (serves_answerPipeline refused)
    (.step hpipeline (.start rfl ⟨hhanded, hback, rfl⟩)) (Pool.threads_update_self ..)
  rw [run_answerPipeline] at hafter hended
  exact ⟨pool, hpool, congrArg PipelineState.trace hafter, hended⟩

end Sample

open Sample in
/-- The data of the first receipt was read from a response about its image. -/
theorem attempted_extracted :
    ∃ pool : PipelinePool Bool, ∃ receipt image fileName response outputText,
      PipelineRun imagePlatform staff collaborators False imageCalls (fun _ => none) pool ∧
      (current staff pool.shared.trace).receiptRow 1 = some receipt ∧
      receipt.originalData = some goodData ∧ imagePlatform.sha256 image = receipt.imageSha256 ∧
      collaborators.answers (.post (OpenAiReceiptExtractor.body collaborators.openAi
        ⟨image, receipt.contentType, fileName⟩)) (.response response) ∧
      OpenAiReceiptExtractor.findOutputText response = .ok outputText := by
  obtain ⟨pool, hrun, htrace, -⟩ := attempted_run false
  have hstored : ((current staff (attempted false).2.calls.trace).receiptRow 1).map
      Receipt.originalData = some (some goodData) := by decide +kernel
  rw [← htrace] at hstored
  obtain ⟨receipt, hreceipt, hdata⟩ := Option.map_eq_some_iff.mp hstored
  obtain ⟨image, width, height, fileName, response, outputText, proposal, hdigest, -, -, -, hposted,
    htext, -⟩ := extracted_from_own_image length_digest imageCalls_collisionFree hrun hreceipt hdata
  exact ⟨pool, receipt, image, fileName, response, outputText, hrun, hreceipt, hdata, hdigest,
    hposted, htext⟩

open Sample in
/-- Where the storage refuses the worker, the job fails at its first attempt. -/
theorem refused_failed :
    ∃ pool : PipelinePool Bool, ∃ job claim image e,
      PipelineRun imagePlatform staff collaborators False imageCalls (fun _ => none) pool ∧
      (current staff pool.shared.trace).findJob 1 = some job ∧ job.status = .failed ∧
      job.attemptCount = 1 ∧ e.isRetryable = false ∧
      LoadRefused imagePlatform staff collaborators False imageCalls (fun _ => none) pool claim
        image e := by
  obtain ⟨pool, hrun, htrace, -⟩ := attempted_run true
  have hstored : ((current staff (attempted true).2.calls.trace).findJob 1).map
      (fun job => (job.status, job.attemptCount)) = some (.failed, 1) := by decide +kernel
  rw [← htrace] at hstored
  obtain ⟨job, hjob, hstatus⟩ := Option.map_eq_some_iff.mp hstored
  obtain ⟨hfailed, hattempts⟩ := Prod.mk.inj hstatus
  obtain ⟨receipt, image, claim, e, -, -, hattempt⟩ :=
    failure_explained length_digest imageCalls_collisionFree hrun hjob hfailed
  have hearly : ¬ MAX_ATTEMPTS ≤ claim.attemptCount := by
    rw [hattempt.attemptCount, hattempts]
    decide
  rcases hattempt.cause with hrefused | hthrown
  · refine ⟨pool, job, claim, image, e, hrun, hjob, hfailed, hattempts, ?_, hrefused⟩
    exact Bool.eq_false_iff.mpr fun hretryable => hearly (hrefused.limit hretryable)
  · exact absurd hthrown.limit hearly

open Sample in
/-- The attempt that was refused has reported. -/
theorem refused_reported :
    ∃ pool : PipelinePool Bool, ∃ receipt,
      PipelineRun imagePlatform staff collaborators False imageCalls (fun _ => none) pool ∧
      pool.Ended takenClaim (.ok receipt) ∧ ∃ commit ∈ pool.shared.trace,
        commit.operation.isOfProcess = true ∧ commit.operation.claim? = some takenClaim := by
  obtain ⟨pool, hrun, -, hended⟩ := attempted_run true
  have hreturns : (attempted true).1.isOk = true := by decide +kernel
  cases houtcome : (attempted true).1 with
  | error e =>
      rw [houtcome] at hreturns
      cases hreturns
  | ok receipt =>
      rw [houtcome] at hended
      exact ⟨pool, receipt, hrun, hended, attempt_reported hrun hended⟩

end ReceiptReview
