import ReceiptReview.Model.Configuration
import ReceiptReview.Service.Processor

/-!
# The lease and the external call

A claim gives the job a lease that starts with the claim; the worker then reads
the image and calls the extractor.  The startup validation wants the lease to
outlast the call, and compares it with the response timeout alone.  What the
lease has to cover is the sum of the three limits: of reading the image, of
connecting and of the response.

The clock is the state of the environment that a run of `process` executes in
(`served`); only the calls to the storage and to the extractor take time.
-/

namespace ReceiptReview

open Java Outcome Program ReceiptExtractionProcessor ReceiptWorkerConfiguration

variable {config : Configuration} {claimedJob : ClaimedReceiptJob}

/-! ## Runs on a clock -/

/-- The time, and the moments at which the extractor has returned. -/
structure Watch where
  now : Instant
  returned : List Instant

/-- How long a request may take: reading the image up to the request timeout of
the storage, the extraction up to its two timeouts, the reports of the outcome
any time. -/
def served (config : Configuration) (s : Watch) (r : ProcessRequest) (_ : r.Answer)
    (s' : Watch) : Prop :=
  match r with
  | .load _ =>
      s.now ≤ s'.now ∧ s'.now ≤ s.now + config.s3.requestTimeout ∧ s'.returned = s.returned
  | .inspect _ | .now => s' = s
  | .extract _ =>
      ∃ connected, s.now ≤ connected ∧ connected ≤ s.now + config.receipt.openai.connectTimeout ∧
        connected ≤ s'.now ∧ s'.now ≤ connected + config.receipt.openai.responseTimeout ∧
        s'.returned = s'.now :: s.returned
  | .completeQualityRejection .. | .completeExtraction .. | .scheduleRetry ..
  | .failExtraction .. => s.now ≤ s'.now ∧ s'.returned = s.returned

/-- The worker starts with this configuration, and with OpenAI as its extractor. -/
structure Configuration.Accepted (config : Configuration) : Prop where
  validated : ∃ drawn identity,
    receiptWorkerIdentity config.worker config.receipt drawn = .ok identity
  openai : config.receipt.extractor.provider.equalsIgnoreCase (.ofString "openai") = true

/-- Whenever the extractor returns in a run that starts with the claim, the
lease of the job has not expired up to that moment, so that no recovery has
found the job. -/
def Configuration.Covers (config : Configuration) : Prop :=
  ∀ lease, config.worker.leaseDuration = some lease →
    ∀ (job job' : ReceiptExtractionJob) (workerId claimToken : JString) (claimedAt : Instant),
      job.claim workerId claimToken claimedAt (claimedAt + lease) = .ok job' →
      ∀ (claimedJob : ClaimedReceiptJob) (result : Except Failure Receipt) (s' : Watch),
        Executes (served config) Eq ⟨claimedAt, []⟩ (process claimedJob) result s' →
        ∀ returned ∈ s'.returned, ∀ moment ≤ returned, job'.leaseExpired moment = false

/-- Some calls are within the limits: none of the limits is negative. -/
structure Configuration.Feasible (config : Configuration) : Prop where
  load : 0 ≤ config.s3.requestTimeout
  connect : 0 ≤ config.receipt.openai.connectTimeout
  response : 0 ≤ config.receipt.openai.responseTimeout

/-- The time from the claim to the return of the extractor, at most. -/
def Configuration.limit (config : Configuration) : Duration :=
  config.s3.requestTimeout + config.receipt.openai.connectTimeout +
    config.receipt.openai.responseTimeout

/-! ## The extractor returns within the limits -/

/-- The extractor has not returned after the bound, and not at all if no call
is within the limits. -/
def ReturnedBy (config : Configuration) (bound : Instant) (s : Watch) : Prop :=
  ∀ returned ∈ s.returned, returned ≤ bound ∧ config.Feasible

variable {bound : Instant} {s : Watch}

/-- A limit within which time has passed is not negative. -/
theorem nonneg_of_within {started ended limit : ℤ} (hstarted : started ≤ ended)
    (hended : ended ≤ started + limit) : 0 ≤ limit := by
  omega

/-- A report of the outcome is the end of a run. -/
theorem wp_report {r : ProcessRequest} {next : r.Answer → ProcessProgram Receipt}
    (hclaim : r.claim?.isSome) (hs : ReturnedBy config bound s)
    (hnext : ∀ answer s', ReturnedBy config bound s' →
      wp (served config) Eq (next answer) (fun _ => ReturnedBy config bound) s') :
    wp (served config) Eq (.call r next) (fun _ => ReturnedBy config bound) s := by
  intro s₁ hsame answer s₂ hserved
  subst hsame
  apply hnext
  have hreturned : s₂.returned = s.returned := by
    cases r <;> first | exact hserved.2 | exact absurd hclaim (by simp [ProcessRequest.claim?])
  rwa [ReturnedBy, hreturned]

theorem handle_returnedBy (exception : Failure) (hs : ReturnedBy config bound s) :
    wp (served config) Eq (handle claimedJob exception) (fun _ => ReturnedBy config bound) s := by
  have hretry : ∀ e : Failure,
      wp (served config) Eq (retryOrFail claimedJob e) (fun _ => ReturnedBy config bound) s := by
    intro e
    unfold retryOrFail
    by_cases hattempts : claimedJob.attemptCount < MAX_ATTEMPTS
    · simp only [hattempts]
      intro s₁ hsame answer s₂ hserved
      subst hsame
      obtain rfl : s₂ = s := hserved
      cases answer with
      | error e => exact hs
      | ok now => exact wp_report rfl hs fun _ _ hs' => hs'
    · simp only [hattempts]
      exact wp_report rfl hs fun _ _ hs' => hs'
  cases exception with
  | extraction message => exact hretry _
  | receiptImageStorage message retryable =>
      cases retryable with
      | true => exact hretry _
      | false => exact wp_report rfl hs fun _ _ hs' => hs'
  | receiptImageNotFound => exact wp_report rfl hs fun _ _ hs' => hs'
  | _ => exact hs

/-- The extractor returns within its two timeouts after the image has been read. -/
theorem extract_returnedBy {claimedAt : Instant} {s' : Watch} {request : ExtractionRequest}
    {answer : (ProcessRequest.extract request).Answer} (hload : 0 ≤ config.s3.requestTimeout)
    (hloaded : s.now ≤ claimedAt + config.s3.requestTimeout) (hnone : s.returned = [])
    (hextract : served config s (.extract request) answer s') :
    ReturnedBy config (claimedAt + config.limit) s' := by
  obtain ⟨connected, hconnecting, hconnected, hresponding, hresponse, hreturned⟩ := hextract
  intro returned hmem
  rw [hreturned, hnone, List.mem_singleton] at hmem
  subst hmem
  refine ⟨?_, hload, nonneg_of_within hconnecting hconnected,
    nonneg_of_within hresponding hresponse⟩
  calc s'.now
      ≤ connected + config.receipt.openai.responseTimeout := hresponse
    _ ≤ s.now + config.receipt.openai.connectTimeout +
        config.receipt.openai.responseTimeout := Int.add_le_add_right hconnected _
    _ ≤ claimedAt + config.s3.requestTimeout + config.receipt.openai.connectTimeout +
        config.receipt.openai.responseTimeout :=
      Int.add_le_add_right (Int.add_le_add_right hloaded _) _
    _ = claimedAt + config.limit := by
      rw [Configuration.limit, Int.add_assoc, Int.add_assoc, Int.add_assoc]

theorem process_returnedBy {claimedAt : Instant} :
    wp (served config) Eq (process claimedJob)
      (fun _ => ReturnedBy config (claimedAt + config.limit)) ⟨claimedAt, []⟩ := by
  intro s hsame loaded s₁ hload
  subst hsame
  obtain ⟨hstarted, hloaded, hreturned⟩ := hload
  -- nothing has been returned yet, so an exception here is reported in time
  have hnone : ReturnedBy config (claimedAt + config.limit) s₁ := by simp [ReturnedBy, hreturned]
  cases loaded with
  | error e => exact handle_returnedBy e hnone
  | ok image =>
      intro s hsame inspected s₂ hinspect
      subst hsame
      obtain rfl : s₂ = s₁ := hinspect
      cases inspected with
      | error e => exact handle_returnedBy e hnone
      | ok quality =>
          show wp (served config) Eq
            ((extractInspected claimedJob image quality).tryCatch (handle claimedJob)) _ _
          unfold extractInspected
          by_cases hquality : quality.status ≠ .acceptable
          · -- an image of poor quality is reported without an extraction
            rw [if_pos hquality]
            refine wp_report rfl hnone fun answer s' hs' => ?_
            cases answer with
            | error e => exact handle_returnedBy e hs'
            | ok receipt => exact hs'
          · rw [if_neg hquality]
            intro s hsame extracted s₃ hextract
            subst hsame
            have hbound : ReturnedBy config (claimedAt + config.limit) s₃ :=
              extract_returnedBy (nonneg_of_within hstarted hloaded) hloaded hreturned hextract
            cases extracted with
            | error e => exact handle_returnedBy e hbound
            | ok extraction =>
                intro s hsame read s₄ hread
                subst hsame
                obtain rfl : s₄ = s₃ := hread
                cases read with
                | error e => exact handle_returnedBy e hbound
                | ok extractedAt =>
                    refine wp_report rfl hbound fun answer s' hs' => ?_
                    cases answer with
                    | error e => exact handle_returnedBy e hs'
                    | ok receipt => exact hs'

/-! ## What the lease has to cover -/

/-- A run in which each call takes as long as it may. -/
theorem exists_slow_run (hfeasible : config.Feasible) (claimedJob : ClaimedReceiptJob)
    (claimedAt : Instant) :
    ∃ result s', Executes (served config) Eq ⟨claimedAt, []⟩ (process claimedJob) result s' ∧
      claimedAt + config.limit ∈ s'.returned := by
  have hloaded : claimedAt ≤ claimedAt + config.s3.requestTimeout :=
    Int.le_add_of_nonneg_right hfeasible.load
  have hend : claimedAt + config.limit = claimedAt + config.s3.requestTimeout +
      config.receipt.openai.connectTimeout + config.receipt.openai.responseTimeout := by
    rw [Configuration.limit, Int.add_assoc, Int.add_assoc, Int.add_assoc]
  -- the load, the connection and the response take all the time they may
  let loaded : Watch := ⟨claimedAt + config.s3.requestTimeout, []⟩
  let extracted : Watch := ⟨claimedAt + config.limit, [claimedAt + config.limit]⟩
  refine ⟨.error .other, extracted, ?_, List.mem_singleton_self _⟩
  have hread : served config ⟨claimedAt, []⟩ (.load claimedJob.imageStorageKey) (.ok []) loaded :=
    ⟨hloaded, Int.le_refl _, rfl⟩
  have hextract : served config loaded
      (.extract ⟨[], claimedJob.contentType, claimedJob.fileName⟩) (.ok ⟨none, [], []⟩)
      extracted := by
    refine ⟨loaded.now + config.receipt.openai.connectTimeout,
      Int.le_add_of_nonneg_right hfeasible.connect, Int.le_refl _, ?_, ?_, rfl⟩
    · show _ ≤ claimedAt + config.limit
      rw [hend]
      exact Int.le_add_of_nonneg_right hfeasible.response
    · exact Int.le_of_eq hend
  have hinspect : served config loaded (.inspect []) (.ok ⟨.acceptable, none, none, none⟩)
      loaded := rfl
  have hnow : served config extracted .now (.ok 0) extracted := rfl
  have hreport : served config extracted (.completeExtraction claimedJob ⟨none, [], []⟩ 0)
      (.error .other) extracted := ⟨Int.le_refl _, rfl⟩
  exact .call rfl hread (.call rfl hinspect (.call rfl hextract (.call rfl hnow
    (.call rfl hreport .done))))

theorem Configuration.Covers.limit_le (hcovers : config.Covers) (hfeasible : config.Feasible)
    {lease : Duration} (hlease : config.worker.leaseDuration = some lease) :
    config.limit ≤ lease := by
  -- the job of the slow run is claimed at time zero
  obtain ⟨job', hclaim⟩ :
      ∃ job', (ReceiptExtractionJob.new 1 [] 0).claim [] [] 0 (0 + lease) = .ok job' := ⟨_, rfl⟩
  obtain ⟨result, s', hexec, hreturned⟩ := exists_slow_run hfeasible
    ⟨1, 1, 0, 0, none, none, none, [], none, none, false⟩ 0
  have hexpired := hcovers lease hlease _ job' [] [] 0 hclaim _ result s' hexec _ hreturned
    _ (Int.le_refl _)
  rw [(ReceiptExtractionJob.claim_eq_ok hclaim).2] at hexpired
  simpa [ReceiptExtractionJob.leaseExpired] using hexpired

/-- The lease covers the external call exactly when it is at least the sum of
the three limits, or one of them is negative and no call is within it. -/
theorem lease_covers_iff (config : Configuration) :
    config.Covers ↔ (config.Feasible →
      ∀ lease, config.worker.leaseDuration = some lease → config.limit ≤ lease) := by
  constructor
  · intro hcovers hfeasible lease hlease
    exact hcovers.limit_le hfeasible hlease
  · intro hlimit lease hlease job job' workerId claimToken claimedAt hclaim claimedJob result s'
      hexec returned hmem moment hmoment
    obtain ⟨hbound, hfeasible⟩ := wp_iff.mp process_returnedBy result s' hexec returned hmem
    have hlease' : moment ≤ claimedAt + lease :=
      calc moment
          ≤ returned := hmoment
        _ ≤ claimedAt + config.limit := hbound
        _ ≤ claimedAt + lease := Int.add_le_add_left (hlimit hfeasible lease hlease) _
    rw [(ReceiptExtractionJob.claim_eq_ok hclaim).2]
    simpa [ReceiptExtractionJob.leaseExpired] using hlease'

namespace Sample

/-- The default timeouts with a lease of 31 seconds. -/
def shortLease : Configuration where
  worker := ⟨1000, some 31000000000, 4, 4, some []⟩
  receipt := ⟨⟨.ofString "openai", 0⟩, ⟨3000000000, 30000000000⟩⟩
  s3 := ⟨15000000000⟩

end Sample

open Sample in
/-- A lease of 31 seconds is accepted, and may expire while the extractor is
still within its limits. -/
theorem shortLease_not_covered :
    ¬ ∀ config : Configuration, config.Accepted → config.Covers := by
  intro hcovers
  have haccepted : shortLease.Accepted := ⟨⟨[], _, rfl⟩, by decide⟩
  have hlimit : shortLease.limit ≤ 31000000000 :=
    (hcovers shortLease haccepted).limit_le ⟨by decide, by decide, by decide⟩ rfl
  exact absurd hlimit (by decide)

end ReceiptReview
