import ReceiptReview.Lifecycle.JobQueues
import ReceiptReview.Results.Attempts

/-!
# Jobs are taken in the order in which they wait

`lockAvailableJobs` sorts the waiting jobs by `available_at` and id, `lockExpiredJobs` the
claimed ones by `lease_until` and id.  So there are two queues: jobs that wait for a claim, and
leases that wait for their recovery.

A job is passed over only in favour of jobs before it, and what is put back, by a release, a
recovery or a retry, is put behind the jobs that have waited meanwhile.  Hence all claims that
pass a job over take together no more jobs than were before it when it became available, in
every run and whatever the workers are; and likewise for the recoveries of an expired lease.
-/

namespace ReceiptReview

open Java Store ReceiptCase ReceiptExtractionJobRepository

variable {P : Platform} {employees : Table Employee} {trace later : List Commit}
variable {commit : Commit} {operation : Operation} {x x' : ReceiptCase} {events : List AuditEvent}
variable {db : Database} {job job' : ReceiptExtractionJob}

/-! ## Jobs that wait for a claim -/

def ReceiptExtractionJob.isWaiting (job : ReceiptExtractionJob) : Bool :=
  job.status = .queued || job.status = .retryWait

theorem ReceiptExtractionJob.isWaiting_iff :
    job.isWaiting = true ↔ job.status = .queued ∨ job.status = .retryWait := by
  simp [isWaiting]

theorem ReceiptExtractionJob.not_isWaiting_of_isOwnedBy {workerId claimToken : Option JString}
    (h : job.isOwnedBy workerId claimToken) : job.isWaiting = false := by
  simp [isWaiting, (isOwnedBy_iff.mp h).1]

/-- A job that waits after a step has waited before it in the same place, or is put back just
now. -/
theorem ReceiptCase.Step.joins_waiting (h : Step employees operation x events x')
    (hwaiting : x'.job.isWaiting = true) :
    x.job.isWaiting = true ∧ x'.job.availableAt = x.job.availableAt ∨
      x.job.isWaiting = false ∧ operation.clock ≤ x'.job.availableAt := by
  cases h with
  | claimed hclaim =>
      rw [(ReceiptExtractionJob.claim_eq_ok hclaim).2] at hwaiting
      exact absurd hwaiting (by simp [ReceiptExtractionJob.flushed, ReceiptExtractionJob.isWaiting])
  | released _ hrelease =>
      obtain ⟨howned, rfl⟩ := ReceiptExtractionJob.releaseClaim_eq_ok hrelease
      exact .inr ⟨ReceiptExtractionJob.not_isWaiting_of_isOwnedBy howned, le_rfl⟩
  | recovered hrecover =>
      obtain ⟨hprocessing, -, rfl⟩ := ReceiptExtractionJob.recoverExpiredLease_eq_ok hrecover
      exact .inr ⟨by simp [ReceiptExtractionJob.isWaiting, hprocessing], le_rfl⟩
  | qualityRejected _ _ hcomplete | extracted _ _ hcomplete =>
      rw [(ReceiptExtractionJob.complete_eq_ok hcomplete).2] at hwaiting
      exact absurd hwaiting (by simp [ReceiptExtractionJob.flushed, ReceiptExtractionJob.isWaiting])
  | retryScheduled _ _ hretry =>
      simp only [ReceiptExtractionJob.scheduleRetry, Outcome.bind_eq_ok, Outcome.throwIf_eq_ok,
        ReceiptExtractionJob.requireOwnership_eq_ok, Outcome.pure_eq_ok] at hretry
      obtain ⟨_, howned, _, hfuture, rfl⟩ := hretry
      exact .inr ⟨ReceiptExtractionJob.not_isWaiting_of_isOwnedBy howned, (not_le.mp hfuture).le⟩
  | failed _ _ hfail =>
      rw [(ReceiptExtractionJob.fail_eq_ok hfail).2] at hwaiting
      exact absurd hwaiting (by simp [ReceiptExtractionJob.flushed, ReceiptExtractionJob.isWaiting])
  | duplicateDeferred | duplicateMarked | corrected | decided => exact .inl ⟨hwaiting, rfl⟩

/-- The jobs that a claim may take, since they have become available. -/
def waitingRule : QueueRule where
  waits := ReceiptExtractionJob.isWaiting
  since := ReceiptExtractionJob.availableAt
  batch
    | .claimAvailable _ batchSize _ _ _ locked => some (batchSize, locked)
    | _ => none

/-- A claim writes the jobs that it has locked. -/
theorem ids_claimAvailable {workerId : JString} {batchSize leaseDuration : ℤ} {now : Instant}
    {tokens : Long → JString} {locked : List Long} {claims : List ClaimedReceiptJob}
    {changes : Database.Changes}
    (h : ReceiptJobClaimService.claimAvailable db workerId batchSize leaseDuration now tokens
      locked = .ok (claims, changes)) :
    changes.jobs.map ReceiptExtractionJob.id =
      (lockAvailableJobs db now batchSize locked).map ReceiptExtractionJob.id := by
  simp only [ReceiptJobClaimService.claimAvailable, Outcome.bind_eq_ok, Outcome.pure_eq_ok] at h
  obtain ⟨_, -, claimed, hclaimed, claims', -, h⟩ := h
  obtain ⟨-, rfl⟩ := Prod.mk.inj h
  refine (Outcome.map_eq_of_forall₂ (Outcome.forall₂_of_mapM_eq_ok hclaimed) ?_).symm
  intro job job' hclaim
  rw [(ReceiptExtractionJob.claim_eq_ok hclaim).2]

theorem waitingRule_place_le_iff :
    availableBefore job job' ↔ waitingRule.place job ≤ waitingRule.place job' := by
  rw [QueueRule.place, QueueRule.place, Prod.Lex.toLex_le_toLex]
  rfl

def waitingJobs : JobQueue where
  toQueueRule := waitingRule
  joins hstep _ hwaiting := hstep.joins_waiting hwaiting
  created _ := le_rfl
  leaves := by
    intro employees operation x events x' batchSize locked hstep hbatch
    cases hstep <;> cases hbatch
    case claimed hclaim _ =>
      rw [(ReceiptExtractionJob.claim_eq_ok hclaim).2]
      simp [waitingRule, ReceiptExtractionJob.flushed, ReceiptExtractionJob.isWaiting]
  selects := by
    intro operation db reply changes batchSize locked job hbody hbatch hrow hwaiting hclock
      hunlocked
    cases operation <;> cases hbatch
    case claimAvailable workerId leaseDuration now tokens =>
      simp only [Operation.body, replyWith_eq_ok] at hbody
      obtain ⟨claims, hclaim, -⟩ := hbody
      refine ⟨_, QueueRule.selects_take waitingRule_place_le_iff ?_ hrow ?_
        (ids_claimAvailable hclaim)⟩
      · intro row hrow
        simp only [Bool.and_eq_true] at hrow
        exact hrow.1.1
      · simp only [Bool.and_eq_true, decide_eq_true_eq, Bool.not_eq_true',
          List.contains_eq_mem, decide_eq_false_iff_not]
        exact ⟨⟨hwaiting, le_of_lt hclock⟩, hunlocked⟩

/-! ## Leases that wait for their recovery -/

/-- The job is claimed, and its claim ends at some moment. -/
def ReceiptExtractionJob.isLeased (job : ReceiptExtractionJob) : Bool :=
  job.status = .processing && job.leaseUntil.isSome

theorem leaseDuration_of_claimAvailable {workerId : JString} {batchSize leaseDuration : ℤ}
    {now : Instant} {tokens : Long → JString} {locked : List Long}
    {answer : List ClaimedReceiptJob × Database.Changes}
    (h : ReceiptJobClaimService.claimAvailable db workerId batchSize leaseDuration now tokens
      locked = .ok answer) : 0 < leaseDuration := by
  simp only [ReceiptJobClaimService.claimAvailable, ReceiptJobClaimService.validateClaimRequest,
    Outcome.bind_eq_ok, Outcome.throwIf_eq_ok] at h
  obtain ⟨_, ⟨_, -, _, -, hduration⟩, -⟩ := h
  exact not_le.mp hduration

/-- A job that is claimed after a step was claimed by it, or has kept its lease. -/
theorem ReceiptCase.Step.of_processing (h : Step employees operation x events x')
    (hprocessing : x'.job.status = .processing) :
    (∃ workerId batchSize leaseDuration now tokens locked,
        operation = .claimAvailable workerId batchSize leaseDuration now tokens locked ∧
          x.job.status ≠ .processing ∧ x'.job.leaseUntil = some (now + leaseDuration)) ∨
      x.job.status = .processing ∧ x'.job.leaseUntil = x.job.leaseUntil := by
  cases h with
  | claimed hclaim =>
      obtain ⟨hwaiting, rfl⟩ := ReceiptExtractionJob.claim_eq_ok hclaim
      refine .inl ⟨_, _, _, _, _, _, rfl, ?_, rfl⟩
      rcases hwaiting with hwaiting | hwaiting <;> simp [hwaiting]
  | released _ hrelease =>
      rw [(ReceiptExtractionJob.releaseClaim_eq_ok hrelease).2] at hprocessing
      cases hprocessing
  | recovered hrecover =>
      rw [(ReceiptExtractionJob.recoverExpiredLease_eq_ok hrecover).2.2] at hprocessing
      cases hprocessing
  | qualityRejected _ _ hcomplete | extracted _ _ hcomplete =>
      rw [(ReceiptExtractionJob.complete_eq_ok hcomplete).2] at hprocessing
      cases hprocessing
  | retryScheduled _ _ hretry =>
      rw [(ReceiptExtractionJob.scheduleRetry_eq_ok hretry).2] at hprocessing
      cases hprocessing
  | failed _ _ hfail =>
      rw [(ReceiptExtractionJob.fail_eq_ok hfail).2] at hprocessing
      cases hprocessing
  | duplicateDeferred | duplicateMarked | corrected | decided => exact .inr ⟨hprocessing, rfl⟩

/-- The lease of a job stays as it is until the job is no longer leased; a new lease ends after
the present moment. -/
theorem ReceiptCase.Step.joins_leased (h : Step employees operation x events x')
    (hbody : ∃ db answer, operation.body db = .ok answer) (hleased : x'.job.isLeased = true) :
    x.job.isLeased = true ∧ x'.job.leaseUntil = x.job.leaseUntil ∨
      x.job.isLeased = false ∧ operation.clock ≤ x'.job.leaseUntil.getD 0 := by
  simp only [ReceiptExtractionJob.isLeased, Bool.and_eq_true, decide_eq_true_eq] at hleased
  rcases h.of_processing hleased.1 with
    ⟨workerId, batchSize, leaseDuration, now, tokens, locked, rfl, hnot, hlease⟩ |
    ⟨hprocessing, hlease⟩
  · obtain ⟨db, ⟨reply, changes⟩, hbody⟩ := hbody
    simp only [Operation.body, replyWith_eq_ok] at hbody
    obtain ⟨claims, hclaims, -⟩ := hbody
    have hduration := leaseDuration_of_claimAvailable hclaims
    refine .inr ⟨by simp [ReceiptExtractionJob.isLeased, hnot], ?_⟩
    rw [hlease]
    exact le_add_of_nonneg_right hduration.le
  · left
    rw [hlease] at hleased ⊢
    exact ⟨by simp [ReceiptExtractionJob.isLeased, hprocessing, hleased.2], rfl⟩

/-- The jobs that a recovery may take, since their leases have run out. -/
def leaseRule : QueueRule where
  waits := ReceiptExtractionJob.isLeased
  since job := job.leaseUntil.getD 0
  batch
    | .recoverExpired batchSize _ locked => some (batchSize, locked)
    | _ => none

/-- A recovery writes the jobs that it has locked. -/
theorem ids_recoverExpired {batchSize : ℤ} {now : Instant} {locked : List Long} {u : Unit}
    {changes : Database.Changes}
    (h : ExpiredJobRecoveryService.recoverExpired db batchSize now locked = .ok (u, changes)) :
    changes.jobs.map ReceiptExtractionJob.id =
      (lockExpiredJobs db now batchSize locked).map ReceiptExtractionJob.id := by
  simp only [ExpiredJobRecoveryService.recoverExpired, Outcome.bind_eq_ok, Outcome.pure_eq_ok] at h
  obtain ⟨_, -, recovered, hrecovered, h⟩ := h
  obtain ⟨-, rfl⟩ := Prod.mk.inj h
  refine (Outcome.map_eq_of_forall₂ (Outcome.forall₂_of_mapM_eq_ok hrecovered) ?_).symm
  intro job job' hrecover
  rw [(ReceiptExtractionJob.recoverExpiredLease_eq_ok hrecover).2.2]

theorem leaseRule_place_le_iff :
    leasedBefore job job' ↔ leaseRule.place job ≤ leaseRule.place job' := by
  rw [QueueRule.place, QueueRule.place, Prod.Lex.toLex_le_toLex]
  rfl

def leasedJobs : JobQueue where
  toQueueRule := leaseRule
  joins := by
    intro employees operation x events x' hstep hbody hleased
    refine (hstep.joins_leased hbody hleased).imp_left fun hkept => ⟨hkept.1, ?_⟩
    exact congrArg (·.getD 0) hkept.2
  created hleased := absurd hleased (by
    simp [leaseRule, ReceiptExtractionJob.isLeased, intake, ReceiptExtractionJob.new])
  leaves := by
    intro employees operation x events x' batchSize locked hstep hbatch
    cases hstep <;> cases hbatch
    -- a recovered job is queued again
    case recovered hrecover _ =>
      rw [(ReceiptExtractionJob.recoverExpiredLease_eq_ok hrecover).2.2]
      simp [leaseRule, ReceiptExtractionJob.flushed, ReceiptExtractionJob.isLeased]
  selects := by
    intro operation db reply changes batchSize locked job hbody hbatch hrow hleased hclock
      hunlocked
    cases operation <;> cases hbatch
    case recoverExpired now =>
      simp only [Operation.body, replyWith_eq_ok] at hbody
      obtain ⟨u, hrecover, -⟩ := hbody
      simp only [leaseRule, ReceiptExtractionJob.isLeased, Bool.and_eq_true] at hleased
      obtain ⟨hprocessing, hsome⟩ := hleased
      obtain ⟨leaseUntil, hlease⟩ := Option.isSome_iff_exists.mp hsome
      refine ⟨_, QueueRule.selects_take leaseRule_place_le_iff ?_ hrow ?_
        (ids_recoverExpired hrecover)⟩
      · -- the query selects jobs that are leased
        intro row hrow
        simp only [Bool.and_eq_true, ReceiptExtractionJob.leaseExpired] at hrow
        obtain ⟨leaseUntil, hlease, -⟩ := (Option.any_eq_true _ _).mp hrow.1.2
        simp only [leaseRule, ReceiptExtractionJob.isLeased, Bool.and_eq_true]
        exact ⟨hrow.1.1, by simp [hlease]⟩
      · -- the lease of the job has expired by the clock of the recovery
        simp only [Bool.and_eq_true, Bool.not_eq_true', List.contains_eq_mem,
          decide_eq_false_iff_not, ReceiptExtractionJob.leaseExpired, hlease, Option.any_some,
          decide_eq_true_eq]
        simp only [leaseRule, hlease, Option.getD_some] at hclock
        exact ⟨⟨of_decide_eq_true hprocessing, hclock⟩, hunlocked⟩

/-! ## What leaves the queues -/

/-- A waiting job leaves the queue by a claim, which it counts. -/
theorem ReceiptCase.Evolves.claimed_or_waits (h : Evolves P employees x x')
    (hwaiting : x.job.isWaiting = true) :
    x.job.attemptCount < x'.job.attemptCount ∨
      x'.job.isWaiting = true ∧ x'.job.attemptCount = x.job.attemptCount := by
  induction h with
  | refl => exact .inr ⟨hwaiting, rfl⟩
  | @step y z operation events _ _ hstep ih =>
      have hcount := hstep.attemptCount
      rcases ih with hclaimed | ⟨hwaits, hsame⟩
      · exact .inl (by omega)
      · have hstatus := ReceiptExtractionJob.isWaiting_iff.mp hwaits
        -- a job that waits has no owner, so no report and no release applies to it
        have hunowned : ∀ {workerId claimToken}, ¬ y.job.isOwnedBy workerId claimToken := by
          intro workerId claimToken howned
          simp [ReceiptExtractionJob.not_isWaiting_of_isOwnedBy howned] at hwaits
        cases hstep with
        | claimed hclaim =>
            rw [(ReceiptExtractionJob.claim_eq_ok hclaim).2]
            exact .inl (by simp [ReceiptExtractionJob.flushed, hsame])
        | released _ hrelease =>
            exact absurd (ReceiptExtractionJob.releaseClaim_eq_ok hrelease).1 hunowned
        | recovered hrecover =>
            rw [(ReceiptExtractionJob.recoverExpiredLease_eq_ok hrecover).1] at hstatus
            simp at hstatus
        | qualityRejected _ _ hcomplete | extracted _ _ hcomplete =>
            exact absurd (ReceiptExtractionJob.complete_eq_ok hcomplete).1 hunowned
        | retryScheduled _ _ hretry =>
            exact absurd (ReceiptExtractionJob.scheduleRetry_eq_ok hretry).1 hunowned
        | failed _ _ hfail => exact absurd (ReceiptExtractionJob.fail_eq_ok hfail).1 hunowned
        | duplicateDeferred | duplicateMarked | corrected | decided => exact .inr ⟨hwaits, hsame⟩

theorem ReceiptCase.Evolves.attemptCount_le (h : Evolves P employees x x') :
    x.job.attemptCount ≤ x'.job.attemptCount := by
  induction h with
  | refl => exact le_rfl
  | step _ _ hstep ih =>
      have hcount := hstep.attemptCount
      omega

/-- A claimed job has a lease. -/
theorem ReceiptCase.Reaches.leased {log : List AuditEvent} (h : Reaches P employees x log)
    (hprocessing : x.job.status = .processing) : x.job.leaseUntil.isSome := by
  induction h with
  | created => exact absurd hprocessing (by simp [intake, ReceiptExtractionJob.new])
  | step _ _ hstep ih =>
      rcases hstep.of_processing hprocessing with
        ⟨_, _, _, _, _, _, -, -, hlease⟩ | ⟨hbefore, hlease⟩
      · rw [hlease]
        rfl
      · rw [hlease]
        exact ih hbefore

/-! ## Runs -/

/-- Bounded overtaking: from the moment at which a waiting job is available, the claims that
pass it over take together no more jobs than were before it in the queue.  So as soon as
they could have taken more, the job itself has been claimed. -/
theorem claims_first_come (hrun : Run P employees (later ++ trace)) {id : Long}
    (hjob : (current employees trace).findJob id = some job) (hwaiting : job.isWaiting = true)
    (hclock : ∀ commit ∈ later, job.availableAt < commit.operation.clock) :
    ∃ job', (current employees (later ++ trace)).findJob id = some job' ∧
      (job.attemptCount < job'.attemptCount ∨
        job'.isWaiting = true ∧ job'.availableAt = job.availableAt ∧
          (later.map (waitingJobs.passesOver · id)).sum +
              Line.rank (waitingJobs.line (current employees (later ++ trace)))
                (waitingJobs.place job) ≤
            Line.rank (waitingJobs.line (current employees trace)) (waitingJobs.place job)) := by
  obtain rfl : job.id = id := Database.id_of_findJob hjob
  have hsuffix : trace <:+ later ++ trace := List.suffix_append later trace
  obtain ⟨x, hx, rfl⟩ := (hrun.suffix hsuffix).current_refines.paired.of_job hjob
  obtain ⟨x', hx', hevolves⟩ := hrun.evolves hsuffix hx
  refine ⟨x'.job, hevolves.sameJob.id ▸ hx'.job, ?_⟩
  rcases waitingJobs.left_or_passed hrun hx hwaiting hclock with
    ⟨moment, hsince, hmoment, y, hy, hyid, hleft⟩ | ⟨z, hz, hzid, hwaits, hplace, hpassing⟩
  · -- who has left has been claimed, and claims are counted
    left
    obtain ⟨y', hy', hxy⟩ := (hrun.suffix hmoment).evolves hsince hx
    obtain rfl := hy'.eq_of_jobId hy (hxy.sameJob.id.trans hyid.symm)
    obtain ⟨z, hz, hyz⟩ := hrun.evolves hmoment hy
    obtain rfl := hz.eq_of_jobId hx' (hyz.sameJob.id.trans (hyid.trans hevolves.sameJob.id.symm))
    rcases hxy.claimed_or_waits hwaiting with hclaimed | ⟨hwaits, -⟩
    · exact lt_of_lt_of_le hclaimed hyz.attemptCount_le
    · exact absurd (hwaits.symm.trans hleft) (by simp)
  · right
    obtain rfl := hz.eq_of_jobId hx' (hzid.trans hevolves.sameJob.id.symm)
    exact ⟨hwaits, JobQueue.since_of_place hplace, hpassing.rank_le⟩

/-- An expired lease is recovered in its turn: the recoveries that pass it over take together
no more leases than were before it.  So as soon as they could have taken more, the lease is
gone: recovered, or ended by its worker. -/
theorem leases_first_come (hrun : Run P employees (later ++ trace)) {id : Long}
    (hjob : (current employees trace).findJob id = some job) {leaseUntil : Instant}
    (hprocessing : job.status = .processing) (hlease : job.leaseUntil = some leaseUntil)
    (hclock : ∀ commit ∈ later, leaseUntil < commit.operation.clock) :
    (∃ moment, trace <:+ moment ∧ moment <:+ later ++ trace ∧
        ∃ job', (current employees moment).findJob id = some job' ∧ job'.status ≠ .processing) ∨
      (later.map (leasedJobs.passesOver · id)).sum ≤
        Line.rank (leasedJobs.line (current employees trace)) (leasedJobs.place job) := by
  obtain rfl : job.id = id := Database.id_of_findJob hjob
  have hsuffix : trace <:+ later ++ trace := List.suffix_append later trace
  obtain ⟨x, hx, rfl⟩ := (hrun.suffix hsuffix).current_refines.paired.of_job hjob
  have hleased : x.job.isLeased = true := by
    simp [ReceiptExtractionJob.isLeased, hprocessing, hlease]
  have hlate : ∀ commit ∈ later, leasedJobs.since x.job < commit.operation.clock := by
    intro commit hmem
    have := hclock commit hmem
    simpa [leasedJobs, leaseRule, hlease] using this
  rcases leasedJobs.left_or_passed hrun hx hleased hlate with
    ⟨moment, hsince, hmoment, y, hy, hyid, hleft⟩ | ⟨-, -, -, -, -, hpassing⟩
  · refine .inl ⟨moment, hsince, hmoment, y.job, hyid ▸ hy.job, fun hstill => ?_⟩
    -- a claimed job has a lease
    have hsome := ((hrun.suffix hmoment).current_refines.reaches hy).leased hstill
    simp [leasedJobs, leaseRule, ReceiptExtractionJob.isLeased, hstill, hsome] at hleft
  · have := hpassing.rank_le
    exact .inr (by omega)

namespace Sample

/-- Two photos are uploaded one after the other. -/
def twoPhotos : List Operation :=
  [intakeOf (uploadOf "key-1" imageA) 1 1 0, intakeOf (uploadOf "key-2" imageB) 2 2 1]

def claimOne (now : Instant) (token : String) : Operation :=
  .claimAvailable (.ofString "worker") 1 10 now
    (fun id => .ofString (token ++ "-" ++ toString id)) []

/-- A worker claims one job, hands it back, and claims one job again. -/
def oneByOne : List Operation :=
  [claimOne 2 "token", .release (firstClaim 2 "token") 3, claimOne 4 "next"]

/-- Leases are recovered one by one. -/
def recoveries : List Operation := [.recoverExpired 1 20 [], .recoverExpired 1 21 []]

def twoPhotosTrace : List Commit := (replay platform staff [] twoPhotos).getD []

def oneByOneTrace : List Commit := (replay platform staff twoPhotosTrace oneByOne).getD []

/-- Both jobs are claimed, and their worker dies. -/
def claimedTrace : List Commit :=
  (replay platform staff twoPhotosTrace [claimAll 2 "token"]).getD []

def recoveriesTrace : List Commit := (replay platform staff claimedTrace recoveries).getD []

theorem twoPhotosTrace_run : Run platform staff twoPhotosTrace := by
  refine run_of_replay twoPhotos .nil ?_ rfl
  simp only [twoPhotos, List.forall_mem_cons]
  exact ⟨intakeOf_permitted .., intakeOf_permitted .., by simp⟩

theorem oneByOneTrace_run : Run platform staff oneByOneTrace := by
  refine run_of_replay oneByOne twoPhotosTrace_run ?_ rfl
  simp only [oneByOne, List.forall_mem_cons]
  exact ⟨trivial, trivial, trivial, by simp⟩

theorem recoveriesTrace_run : Run platform staff recoveriesTrace := by
  have hclaimed : Run platform staff claimedTrace :=
    run_of_replay [claimAll 2 "token"] twoPhotosTrace_run (by simp [claimAll, Operation.Permitted])
      rfl
  refine run_of_replay recoveries hclaimed ?_ rfl
  simp only [recoveries, List.forall_mem_cons]
  exact ⟨trivial, trivial, by simp⟩

end Sample

open Sample in
/-- The second claim takes the job of the second photo, not the one that was handed back. -/
theorem oneByOne_inTurn :
    ∃ job, (current staff oneByOneTrace).findJob 2 = some job ∧ 0 < job.attemptCount := by
  obtain ⟨later, hlater, hclock, hpasses⟩ : ∃ later, oneByOneTrace = later ++ twoPhotosTrace ∧
      (∀ commit ∈ later, 1 < commit.operation.clock) ∧
      (later.map (waitingJobs.passesOver · 2)).sum = 2 :=
    ⟨oneByOneTrace.take 3, rfl, by decide +kernel, by decide +kernel⟩
  obtain ⟨job, hjob, hwaiting, havailable, hcount, hrank⟩ : ∃ job,
      (current staff twoPhotosTrace).findJob 2 = some job ∧ job.isWaiting = true ∧
        job.availableAt = 1 ∧ job.attemptCount = 0 ∧
        Line.rank (waitingJobs.line (current staff twoPhotosTrace)) (waitingJobs.place job) = 1 :=
    ⟨_, rfl, rfl, rfl, rfl, by decide +kernel⟩
  rw [hlater]
  obtain ⟨job', hjob', hcase⟩ := claims_first_come (hlater ▸ oneByOneTrace_run) hjob hwaiting
    (by rwa [havailable])
  refine ⟨job', hjob', ?_⟩
  rcases hcase with hclaimed | ⟨-, -, hpassed⟩
  · omega
  · omega

open Sample in
/-- The second recovery takes the lease that the first has passed over. -/
theorem recoveries_inTurn :
    ∃ moment, moment <:+ recoveriesTrace ∧
      ∃ job, (current staff moment).findJob 2 = some job ∧ job.status ≠ .processing := by
  obtain ⟨later, hlater, hclock, hpasses⟩ : ∃ later, recoveriesTrace = later ++ claimedTrace ∧
      (∀ commit ∈ later, 12 < commit.operation.clock) ∧
      (later.map (leasedJobs.passesOver · 2)).sum = 2 :=
    ⟨recoveriesTrace.take 2, rfl, by decide +kernel, by decide +kernel⟩
  obtain ⟨job, hjob, hprocessing, hlease, hrank⟩ : ∃ job,
      (current staff claimedTrace).findJob 2 = some job ∧ job.status = .processing ∧
        job.leaseUntil = some 12 ∧
        Line.rank (leasedJobs.line (current staff claimedTrace)) (leasedJobs.place job) = 1 :=
    ⟨_, rfl, rfl, rfl, by decide +kernel⟩
  rcases leases_first_come (hlater ▸ recoveriesTrace_run) hjob hprocessing hlease hclock with
    ⟨moment, -, hmoment, hleft⟩ | hpassed
  · exact ⟨moment, hlater ▸ hmoment, hleft⟩
  · omega

end ReceiptReview
