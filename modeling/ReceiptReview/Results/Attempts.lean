import ReceiptReview.Concurrent.Workers
import ReceiptReview.System.Replay

/-!
# Attempts of extraction jobs

A job counts its claims (`Run.attemptCount_eq`), and a live claim carries the
count of its job (`Run.attemptCount_of_live`).  Neither a release nor the
recovery of an expired lease looks at the count or takes it back.

Only the retries of `process` respect `MAX_ATTEMPTS`.  So the count of a job is
bounded as long as no release and no recovery puts back a job that has reached
the limit, and a claim after such a step exceeds it
(`attempts_bounded_unless_putBack`).
-/

namespace ReceiptReview

open Java Store ReceiptCase ReceiptExtractionProcessor

variable {P : Platform} {employees : Table Employee} {pool pool' : WorkerPool}
variable {trace : List Commit} {commit : Commit} {claim : ClaimedReceiptJob}
variable {operation : Operation} {x x' : ReceiptCase} {events : List AuditEvent}

/-! ## A job counts its claims -/

theorem ReceiptCase.Step.attemptCount (h : Step employees operation x events x') :
    x'.job.attemptCount =
      x.job.attemptCount + if operation.ownership = .takes then 1 else 0 := by
  cases h with
  | claimed hclaim =>
      rw [(ReceiptExtractionJob.claim_eq_ok hclaim).2]
      rfl
  | released _ hrelease =>
      rw [(ReceiptExtractionJob.releaseClaim_eq_ok hrelease).2]
      rfl
  | recovered hrecover =>
      rw [(ReceiptExtractionJob.recoverExpiredLease_eq_ok hrecover).2.2]
      rfl
  | qualityRejected _ _ hcomplete | extracted _ _ hcomplete =>
      rw [(ReceiptExtractionJob.complete_eq_ok hcomplete).2]
      rfl
  | retryScheduled _ _ hretry =>
      rw [(ReceiptExtractionJob.scheduleRetry_eq_ok hretry).2]
      rfl
  | failed _ _ hfail =>
      rw [(ReceiptExtractionJob.fail_eq_ok hfail).2]
      rfl
  | duplicateDeferred | duplicateMarked | corrected | decided => rfl

/-- The number of claims of a job. -/
def claimsOf (trace : List Commit) (jobId : Long) : ℕ :=
  (handedOut trace).countP (·.jobId = jobId)

theorem claimsOf_cons (commit : Commit) (trace : List Commit) (jobId : Long) :
    claimsOf (commit :: trace) jobId =
      commit.handedOut.countP (·.jobId = jobId) + claimsOf trace jobId := by
  simp [claimsOf, handedOut]

theorem claimsOf_append (newer older : List Commit) (jobId : Long) :
    claimsOf (newer ++ older) jobId = claimsOf newer jobId + claimsOf older jobId := by
  simp [claimsOf, handedOut]

/-- A commit that claims jobs hands out claims of the jobs that it writes. -/
theorem Run.ids_of_takes (h : Run P employees (commit :: trace))
    (htakes : commit.operation.ownership = .takes) :
    commit.changes.jobs.map ReceiptExtractionJob.id =
        commit.handedOut.map ClaimedReceiptJob.jobId ∧
      (commit.changes.jobs.map ReceiptExtractionJob.id).Nodup := by
  rcases h.handedOut with hnone | ⟨-, -, hnodup, hjobs⟩
  · have hjobs : commit.changes.jobs = [] := by
      apply List.eq_nil_iff_forall_not_mem.mpr
      intro job hjob
      obtain ⟨claim, hclaim, -⟩ := h.handedOut_of_claimAvailable htakes hjob
      rw [hnone] at hclaim
      exact absurd hclaim (by simp)
    rw [hnone, hjobs]
    exact ⟨rfl, .nil⟩
  · exact ⟨Outcome.map_eq_of_forall₂ hjobs fun _ _ hfor => hfor.1.jobId.symm, hnodup⟩

/-- The claims of a job that are handed out are the writes of that job. -/
theorem Run.countP_of_takes (h : Run P employees (commit :: trace))
    (htakes : commit.operation.ownership = .takes) (jobId : Long) :
    commit.handedOut.countP (·.jobId = jobId) = commit.changes.jobs.countP (·.id = jobId) := by
  calc commit.handedOut.countP (·.jobId = jobId)
      = (commit.handedOut.map ClaimedReceiptJob.jobId).countP (· = jobId) := by
        rw [List.countP_map]
        rfl
    _ = (commit.changes.jobs.map ReceiptExtractionJob.id).countP (· = jobId) := by
        rw [(h.ids_of_takes htakes).1]
    _ = commit.changes.jobs.countP (·.id = jobId) := by
        rw [List.countP_map]
        rfl

/-- A commit that claims jobs hands out one claim for each job that it writes. -/
theorem Run.countP_handedOut (h : Run P employees (commit :: trace)) (jobId : Long) :
    commit.handedOut.countP (·.jobId = jobId) =
      if commit.operation.ownership = .takes ∧ ∃ job ∈ commit.changes.jobs, job.id = jobId then 1
      else 0 := by
  by_cases htakes : commit.operation.ownership = .takes
  · obtain ⟨hids, hnodup⟩ := h.ids_of_takes htakes
    have hcount : commit.handedOut.countP (·.jobId = jobId) =
        (commit.changes.jobs.map ReceiptExtractionJob.id).count jobId := by
      rw [hids, List.count, List.countP_map]
      exact List.countP_congr fun _ _ => by simp
    rw [hcount]
    by_cases hmem : jobId ∈ commit.changes.jobs.map ReceiptExtractionJob.id
    · rw [List.count_eq_one_of_mem hnodup hmem, if_pos ⟨htakes, List.mem_map.mp hmem⟩]
    · rw [List.count_eq_zero_of_not_mem hmem, if_neg]
      intro hboth
      obtain ⟨-, job, hjob, hid⟩ := hboth
      exact hmem (hid ▸ List.mem_map_of_mem hjob)
  · rw [if_neg fun hboth => htakes hboth.1]
    rcases h.handedOut with hnone | ⟨htakes', -⟩
    · rw [hnone, List.countP_nil]
    · exact absurd htakes' htakes

/-- A claim is for a stored job. -/
theorem Run.job_of_handedOut (h : Run P employees trace) (hclaim : HandedOut trace claim) :
    ∃ job, (current employees trace).findJob claim.jobId = some job := by
  induction trace with
  | nil =>
      obtain ⟨_, hmem, -⟩ := hclaim
      exact absurd hmem (by simp)
  | cons commit trace ih =>
      obtain ⟨by_, hmem, hby⟩ := hclaim
      rcases List.mem_cons.mp hmem with rfl | hmem
      · obtain ⟨x, hx, hid, -⟩ := h.owns_of_handedOut hby
        exact ⟨x.job, hid ▸ hx.job⟩
      · obtain ⟨job, hjob⟩ := ih h.head.1 ⟨by_, hmem, hby⟩
        obtain ⟨x, hx, rfl⟩ := h.head.1.current_refines.paired.of_job hjob
        obtain ⟨x', hx', hmoves⟩ := h.exists_moved hx
        refine ⟨x'.job, ?_⟩
        rw [← Database.id_of_findJob hjob, ← hmoves.sameJob.id]
        exact hx'.job

/-- One commit: the count of a job goes up with its claims. -/
theorem Run.attemptCount_step (h : Run P employees (commit :: trace))
    (hx : (current employees trace).HasCase x) (hx' : commit.after.HasCase x')
    (hid : x'.receipt.id = x.receipt.id) :
    x'.job.attemptCount =
      commit.handedOut.countP (·.jobId = x'.job.id) + x.job.attemptCount := by
  rw [h.countP_handedOut]
  rcases h.kept_or_updated hx with ⟨hafter, -, huntouched⟩ | ⟨hafter, hstep⟩
  · obtain rfl := h.current_refines.paired.unique hx' hafter hid
    rw [if_neg, Nat.zero_add]
    intro hboth
    obtain ⟨-, job, hjob, hjobId⟩ := hboth
    exact huntouched job hjob hjobId
  · obtain rfl := h.current_refines.paired.unique hx' hafter (hid.trans hstep.sameReceipt.id.symm)
    rw [hstep.attemptCount, Nat.add_comm]
    congr 1
    by_cases htakes : commit.operation.ownership = .takes
    · cases hstep.ownership with
      | taken _ _ hversion =>
          have hchanged : (x.updated commit.changes).job.version ≠ x.job.version := by omega
          obtain ⟨job, hjob, hjobId, -⟩ := exists_written_job hchanged
          rw [if_pos htakes, if_pos ⟨htakes, job, hjob, hjobId.trans hstep.sameJob.id.symm⟩]
      | ended hends | kept hends => exact absurd (htakes.symm.trans hends) (by simp)
    · rw [if_neg htakes, if_neg (fun hboth => htakes hboth.1)]

/-- The job of a new case has a new key and no claims. -/
theorem Run.claimsOf_created (h : Run P employees (commit :: trace)) (hcreates : commit.Creates x) :
    x.job.attemptCount = 0 ∧ claimsOf (commit :: trace) x.job.id = 0 := by
  obtain ⟨_, _, _, _, _, jobId, _, _, hoperation, rfl, -⟩ := hcreates
  obtain ⟨hrun, hbefore, -, hcommit, snapshot, -, hbody⟩ := h.head
  rw [hoperation] at hbody
  simp only [Operation.body, replyWith_eq_ok] at hbody
  obtain ⟨pair, hcreate, -⟩ := hbody
  have hfresh := (findJob_created hcreate hcommit jobId).1
  refine ⟨rfl, ?_⟩
  rw [claimsOf_cons, h.countP_handedOut, if_neg (by simp [hoperation, Operation.ownership]),
    Nat.zero_add, claimsOf, List.countP_eq_zero]
  intro claim hclaim hid
  obtain ⟨job, hjob⟩ := hrun.job_of_handedOut (mem_handedOut.mp hclaim)
  rw [of_decide_eq_true hid, ← hbefore] at hjob
  exact absurd (hfresh.symm.trans hjob) (by simp)

/-- A job counts its claims. -/
theorem Run.attemptCount_eq (h : Run P employees trace)
    (hx : (current employees trace).HasCase x) :
    x.job.attemptCount = claimsOf trace x.job.id := by
  induction trace generalizing x with
  | nil => exact absurd hx.receipt (by simp [current, Database.initial, Database.receiptRow])
  | cons commit trace ih =>
      rcases h.created_or_moved hx with hcreates | ⟨y, hy, hmoves⟩
      · rw [(h.claimsOf_created hcreates).1, (h.claimsOf_created hcreates).2]
      · rw [claimsOf_cons, h.attemptCount_step hy hx hmoves.sameReceipt.id, ih h.head.1 hy,
          hmoves.sameJob.id]

/-- What the worker takes away has the count of the written job. -/
theorem Run.attemptCount_of_handedOut (h : Run P employees (commit :: trace))
    (hclaim : claim ∈ commit.handedOut) :
    ∃ job ∈ commit.changes.jobs, job.id = claim.jobId ∧ claim.attemptCount = job.attemptCount := by
  obtain ⟨-, -, -, -, snapshot, -, hbody⟩ := h.head
  unfold Commit.handedOut at hclaim
  split at hclaim
  · rename_i claims hreply
    rw [hreply] at hbody
    obtain ⟨_, _, _, _, _, _, -, hclaimed⟩ := claimAvailable_of_reply hbody
    obtain ⟨claimed, -, -, hclaims, hchanges⟩ :=
      ReceiptJobClaimService.claimAvailable_eq_ok hclaimed
    obtain ⟨job, hjob, htaken⟩ := Outcome.exists_of_forall₂_right hclaims hclaim
    refine ⟨job, by rw [hchanges]; exact hjob, (isFor_of_toClaimedJob htaken).jobId.symm, ?_⟩
    simp only [ReceiptJobClaimService.toClaimedJob, Outcome.bind_eq_ok,
      Outcome.orElseThrow_eq_ok, Outcome.pure_eq_ok] at htaken
    obtain ⟨_, -, rfl⟩ := htaken
    rfl
  · exact absurd hclaim (by simp)

/-- A live claim carries the count of its job. -/
theorem Run.attemptCount_of_live (h : Run P employees trace) (hlive : Live trace claim)
    (hx : (current employees trace).HasCase x) (hid : x.job.id = claim.jobId) :
    claim.attemptCount = x.job.attemptCount := by
  induction trace generalizing x with
  | nil => exact hlive.elim
  | cons commit trace ih =>
      rcases hlive with hnew | ⟨hlive, hothers, -⟩
      · obtain ⟨job, hjob, hjobId, hcount⟩ := h.attemptCount_of_handedOut hnew
        rcases h.handedOut with hnone | ⟨-, hcreated, hnodup, -⟩
        · rw [hnone] at hnew
          exact absurd hnew (by simp)
        · obtain ⟨y, hy, hyid, hafter, hversion, -⟩ := h.step_of_written_job hcreated hjob
          have hchanged : (y.updated commit.changes).job.version ≠ y.job.version := by omega
          obtain ⟨written, hwritten, hwrittenId, hupdated⟩ := exists_written_job hchanged
          obtain rfl := List.inj_on_of_nodup_map hnodup hwritten hjob (hwrittenId.trans hyid)
          obtain rfl := hx.eq_of_jobId hafter (by
            rw [hid, hupdated]
            exact hjobId.symm)
          rw [hupdated]
          exact hcount
      · rcases h.created_or_moved hx with hcreates | ⟨y, hy, hmoves⟩
        · -- the job of a new case has no claims
          have hnone := (h.claimsOf_created hcreates).2
          rw [claimsOf, List.countP_eq_zero] at hnone
          exact absurd (decide_eq_true hid.symm)
            (hnone claim (mem_handedOut.mpr hlive.handedOut.cons))
        · rw [h.attemptCount_step hy hx hmoves.sameReceipt.id,
            ← ih h.head.1 hlive hy (hmoves.sameJob.id.symm.trans hid),
            List.countP_eq_zero.mpr, Nat.zero_add]
          intro other hother hsame
          exact hothers other hother ((of_decide_eq_true hsame).trans hid)

/-! ## The limit -/

/-- The operations that put a job back into the queue. -/
def Operation.requeues : Operation → Bool
  | release .. | recoverExpired .. | scheduleRetry .. => true
  | _ => false

theorem ends_of_requeues (h : operation.requeues = true) : operation.ownership = .ends := by
  cases operation <;> first | rfl | exact absurd h (by simp [Operation.requeues])

/-- The job is not claimed again once its count has reached the limit. -/
structure WithinLimit (job : ReceiptExtractionJob) : Prop where
  le : job.attemptCount ≤ MAX_ATTEMPTS
  waiting : job.status = .queued ∨ job.status = .retryWait → job.attemptCount < MAX_ATTEMPTS

/-- A step stays within the limit, unless it puts back a job at the limit. -/
theorem ReceiptCase.Step.withinLimit (h : Step employees operation x events x')
    (hx : WithinLimit x.job)
    (hrequeue : operation.requeues = true → x.job.attemptCount < MAX_ATTEMPTS) :
    WithinLimit x'.job := by
  cases h with
  | claimed hclaim =>
      obtain ⟨hwaiting, rfl⟩ := ReceiptExtractionJob.claim_eq_ok hclaim
      exact ⟨hx.waiting hwaiting, by simp [ReceiptExtractionJob.flushed]⟩
  | released _ hrelease =>
      rw [(ReceiptExtractionJob.releaseClaim_eq_ok hrelease).2]
      exact ⟨hx.le, fun _ => hrequeue rfl⟩
  | recovered hrecover =>
      rw [(ReceiptExtractionJob.recoverExpiredLease_eq_ok hrecover).2.2]
      exact ⟨hx.le, fun _ => hrequeue rfl⟩
  | retryScheduled _ _ hretry =>
      rw [(ReceiptExtractionJob.scheduleRetry_eq_ok hretry).2]
      exact ⟨hx.le, fun _ => hrequeue rfl⟩
  | qualityRejected _ _ hcomplete | extracted _ _ hcomplete =>
      rw [(ReceiptExtractionJob.complete_eq_ok hcomplete).2]
      exact ⟨hx.le, by simp [ReceiptExtractionJob.flushed]⟩
  | failed _ _ hfail =>
      rw [(ReceiptExtractionJob.fail_eq_ok hfail).2]
      exact ⟨hx.le, by simp [ReceiptExtractionJob.flushed]⟩
  | duplicateDeferred | duplicateMarked => exact ⟨hx.le, hx.waiting⟩
  | corrected | decided => exact hx

/-- The commit puts this stored job back without a look at its count: it hands
back a claim, or recovers an expired lease. -/
def Commit.PutsBack (commit : Commit) (job : ReceiptExtractionJob) : Prop :=
  ((∃ claim now, commit.operation = .release claim now) ∨
    ∃ batchSize now locked, commit.operation = .recoverExpired batchSize now locked) ∧
  commit.before.findJob job.id = some job ∧ ∃ written ∈ commit.changes.jobs, written.id = job.id

/-- Every retry of the trace was scheduled below the limit. -/
def RetriesBelowLimit (trace : List Commit) : Prop :=
  ∀ commit ∈ trace, ∀ claim errorCode errorMessage retryAt now,
    commit.operation = .scheduleRetry claim errorCode errorMessage retryAt now →
    claim.attemptCount < MAX_ATTEMPTS

/-- A step that puts a job back: it was told to do so by a retry below the limit,
or it did not look at the count. -/
theorem Run.requeued (h : Run P employees (commit :: trace))
    (hdisciplined : Disciplined (commit :: trace)) (hretries : RetriesBelowLimit (commit :: trace))
    (hx : (current employees trace).HasCase x)
    (hstep : Step employees commit.operation x events x')
    (hwritten : ∃ written ∈ commit.changes.jobs, written.id = x.job.id)
    (hrequeue : commit.operation.requeues = true) :
    x.job.attemptCount < MAX_ATTEMPTS ∨ commit.PutsBack x.job := by
  have hstored : commit.before.findJob x.job.id = some x.job := by
    rw [h.head.2.1]
    exact hx.job
  cases hoperation : commit.operation with
  | release claim now => exact .inr ⟨.inl ⟨claim, now, hoperation⟩, hstored, hwritten⟩
  | recoverExpired batchSize now locked =>
      exact .inr ⟨.inr ⟨batchSize, now, locked, hoperation⟩, hstored, hwritten⟩
  | scheduleRetry claim errorCode errorMessage retryAt now =>
      left
      have hclaim : commit.operation.claim? = some claim := by rw [hoperation]; rfl
      have hlive := h.live_of_claim? hdisciplined hclaim
      have hid : claim.jobId = x.job.id := by
        cases hstep.ownership with
        | taken hends | kept hends =>
            exact absurd (hends.symm.trans (ends_of_claim? hclaim)) (by simp)
        | ended _ _ _ _ howned => exact (howned claim hclaim).1
      rw [← h.head.1.attemptCount_of_live hlive hx hid.symm]
      exact hretries commit (by simp) claim errorCode errorMessage retryAt now hoperation
  | _ =>
      rw [hoperation] at hrequeue
      exact absurd hrequeue (by simp [Operation.requeues])

theorem Run.withinLimit (h : Run P employees trace) (hdisciplined : Disciplined trace)
    (hretries : RetriesBelowLimit trace)
    (hputs : ∀ commit ∈ trace, ∀ job, commit.PutsBack job → job.attemptCount < MAX_ATTEMPTS)
    (hx : (current employees trace).HasCase x) : WithinLimit x.job := by
  induction trace generalizing x with
  | nil => exact absurd hx.receipt (by simp [current, Database.initial, Database.receiptRow])
  | cons commit trace ih =>
      have hearlier : ∀ {y}, (current employees trace).HasCase y → WithinLimit y.job :=
        ih h.head.1 hdisciplined.1 (fun commit hmem => hretries commit (by simp [hmem]))
          fun commit hmem => hputs commit (by simp [hmem])
      rcases h.created_or_moved hx with ⟨_, _, _, _, _, _, _, _, -, rfl, -⟩ | ⟨y, hy, hmoves⟩
      · exact ⟨by simp [intake, ReceiptExtractionJob.new],
          by simp [intake, ReceiptExtractionJob.new, MAX_ATTEMPTS]⟩
      · rcases h.kept_or_updated hy with ⟨hafter, -, -⟩ | ⟨hafter, hstep⟩
        · obtain rfl := h.current_refines.paired.unique hafter hx hmoves.sameReceipt.id.symm
          exact hearlier hy
        · obtain rfl := h.current_refines.paired.unique hafter hx
            (hstep.sameReceipt.id.trans hmoves.sameReceipt.id.symm)
          refine hstep.withinLimit (hearlier hy) fun hrequeue => ?_
          have hwritten : ∃ written ∈ commit.changes.jobs, written.id = y.job.id := by
            cases hstep.ownership with
            | taken _ _ hversion | ended _ _ _ hversion =>
                have hchanged : (y.updated commit.changes).job.version ≠ y.job.version := by omega
                obtain ⟨written, hmem, hid, -⟩ := exists_written_job hchanged
                exact ⟨written, hmem, hid⟩
            | kept hkeeps =>
                rw [ends_of_requeues hrequeue] at hkeeps
                exact absurd hkeeps (by simp)
          rcases h.requeued hdisciplined hretries hy hstep hwritten hrequeue with hbelow | hputsBack
          · exact hbelow
          · exact hputs commit (by simp) y.job hputsBack

/-- A job that is put back and claimed again has counted the claims before and after. -/
theorem Run.lt_attemptCount_of_putsBack {newer earlier : List Commit}
    (h : Run P employees (newer ++ commit :: earlier)) {job : ReceiptExtractionJob}
    (hputs : commit.PutsBack job) (hclaim : HandedOut newer claim) (hid : claim.jobId = job.id)
    (hx : (current employees (newer ++ commit :: earlier)).HasCase x)
    (hxid : x.job.id = job.id) : job.attemptCount < x.job.attemptCount := by
  obtain ⟨-, hstored, -⟩ := hputs
  have hrun := (h.suffix (List.suffix_append _ _)).head.1
  rw [(h.suffix (List.suffix_append _ _)).head.2.1] at hstored
  obtain ⟨y, hy, rfl⟩ := hrun.current_refines.paired.of_job hstored
  have hone : 1 ≤ claimsOf newer y.job.id := by
    rw [claimsOf, Nat.one_le_iff_ne_zero, Nat.ne_zero_iff_zero_lt, List.countP_pos_iff]
    exact ⟨claim, mem_handedOut.mpr hclaim, decide_eq_true hid⟩
  have hcount := h.attemptCount_eq hx
  rw [hxid, claimsOf_append, claimsOf_cons, ← hrun.attemptCount_eq hy] at hcount
  omega

/-- A job is claimed at most `MAX_ATTEMPTS` times in every run in which no release
and no recovery puts back a job that has reached the limit; and if one does, the
next claim of that job exceeds the limit. -/
theorem attempts_bounded_unless_putBack (hrun : WorkerRun P employees pool) :
    ((∀ commit ∈ pool.shared.trace, ∀ job, commit.PutsBack job →
        job.attemptCount < MAX_ATTEMPTS) →
      ∀ id job, (current employees pool.shared.trace).findJob id = some job →
        job.attemptCount ≤ MAX_ATTEMPTS ∧ claimsOf pool.shared.trace id ≤ MAX_ATTEMPTS) ∧
    ∀ newer commit earlier job, pool.shared.trace = newer ++ commit :: earlier →
      commit.PutsBack job → MAX_ATTEMPTS ≤ job.attemptCount →
      (∃ claim, HandedOut newer claim ∧ claim.jobId = job.id) →
      ∃ now, (current employees pool.shared.trace).findJob job.id = some now ∧
        MAX_ATTEMPTS < now.attemptCount ∧ MAX_ATTEMPTS < claimsOf pool.shared.trace job.id := by
  have hsupervised := hrun.supervised
  constructor
  · intro hputs id job hjob
    obtain ⟨x, hx, rfl⟩ := hsupervised.run.current_refines.paired.of_job hjob
    have hwithin := hsupervised.run.withinLimit hsupervised.disciplined hsupervised.retries hputs hx
    have hcount := hsupervised.run.attemptCount_eq hx
    rw [Database.id_of_findJob hjob] at hcount
    exact ⟨hwithin.le, hcount ▸ hwithin.le⟩
  · intro newer commit earlier job htrace hputs hlimit ⟨claim, hclaim, hid⟩
    have hthen := hsupervised.run
    -- a claim after the job was put back counts once more than the limit
    have hhanded : HandedOut pool.shared.trace claim := by
      rw [htrace]
      obtain ⟨by_, hmem, hby⟩ := hclaim
      exact ⟨by_, List.mem_append_left _ hmem, hby⟩
    obtain ⟨now, hnow⟩ := hthen.job_of_handedOut hhanded
    obtain ⟨x, hx, rfl⟩ := hthen.current_refines.paired.of_job hnow
    rw [hid] at hnow
    have hxid : x.job.id = job.id := Database.id_of_findJob hnow
    have hlt : job.attemptCount < x.job.attemptCount := by
      rw [htrace] at hthen hx
      exact hthen.lt_attemptCount_of_putsBack hputs hclaim hid hx hxid
    have hcount := hthen.attemptCount_eq hx
    rw [hxid] at hcount
    exact ⟨x.job, hnow, by omega, by omega⟩

/-! ## A lease that expires again and again -/

namespace Sample

/-- Three claims whose leases expire, and a fourth one. -/
def leaseOperations : List Operation :=
  [intakeOf (uploadOf "key-1" imageA) 1 1 0,
    claimAll 1 "first", .recoverExpired 10 20 [],
    claimAll 21 "second", .recoverExpired 10 40 [],
    claimAll 41 "third", .recoverExpired 10 60 [],
    claimAll 61 "fourth"]

def leaseTrace : List Commit := (replay platform staff [] leaseOperations).getD []

theorem leaseTrace_run : Run platform staff leaseTrace := by
  refine run_of_replay leaseOperations .nil ?_ rfl
  simp only [leaseOperations, List.forall_mem_cons]
  exact ⟨intakeOf_permitted .., trivial, trivial, trivial, trivial, trivial, trivial, trivial,
    by simp⟩

theorem leaseTrace_disciplined : Disciplined leaseTrace := by
  apply disciplined_of_nodup
  · decide +kernel
  · decide +kernel

theorem leaseTrace_workerRun : WorkerRun platform staff (.initial ⟨leaseTrace, []⟩) :=
  workerRun_of_run leaseTrace_run leaseTrace_disciplined (by decide +kernel)

end Sample

open Sample in
/-- The third recovery puts back a job that was claimed three times, and the next
claim is the fourth. -/
theorem leaseTrace_counted :
    ∃ now, (current staff leaseTrace).findJob 1 = some now ∧
      MAX_ATTEMPTS < now.attemptCount ∧ MAX_ATTEMPTS < claimsOf leaseTrace 1 := by
  refine (attempts_bounded_unless_putBack leaseTrace_workerRun).2 (leaseTrace.take 1)
    leaseTrace[1] (leaseTrace.drop 2) ((leaseTrace[1].before.findJob 1).get rfl) rfl ?_ ?_ ?_
  · exact ⟨.inr ⟨10, 60, [], rfl⟩, rfl, _, .head _, rfl⟩
  · decide +kernel
  · exact ⟨_, ⟨leaseTrace[0], .head _, .head _⟩, rfl⟩

open Sample in
/-- The fourth claim exceeds the limit. -/
theorem leaseTrace_exceeds :
    ∃ pool, WorkerRun platform staff pool ∧
      ∃ job, (current staff pool.shared.trace).findJob 1 = some job ∧
        MAX_ATTEMPTS < job.attemptCount :=
  ⟨.initial ⟨leaseTrace, []⟩, leaseTrace_workerRun, _, rfl, by decide +kernel⟩

end ReceiptReview
