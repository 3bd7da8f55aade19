import ReceiptReview.Results.Finality
import ReceiptReview.Service.Processor

/-!
# Ownership of extraction jobs

A worker holds a job through the claim that `claimAvailable` has handed out to
it.  A claim is live while it is the most recent claim of its job and has not
been finished, released or recovered; this is a property of the history alone.
The invariant connects it to the stored rows: a job is being processed exactly
when it has a live claim, and then it stores the token of that claim
(`Held`).  Tokens do not repeat, so an operation that passes the ownership check
with the token of its claim has a live claim.
-/

namespace ReceiptReview

open Java Store ReceiptCase ReceiptCommandService

variable {P : Platform} {employees : Table Employee} {trace : List Commit} {commit : Commit}
variable {operation : Operation} {x x' : ReceiptCase} {events : List AuditEvent}
variable {claim other : ClaimedReceiptJob}

/-! ## Claims in a history -/

/-- The claim with which a worker calls an operation. -/
def Operation.claim? : Operation → Option ClaimedReceiptJob
  | release claim _ | completeQualityRejection claim _ _ | completeExtraction claim _ _ _ _
  | scheduleRetry claim _ _ _ _ | failExtraction claim _ _ _ => some claim
  | _ => none

/-- What an operation does to the ownership of the jobs that it writes. -/
inductive OwnershipEffect
  | takes
  | ends
  | keeps
  deriving DecidableEq, Repr

/-- Jobs are taken by `claimAvailable`; they are finished, released or recovered
by the operations of the worker. -/
def Operation.ownership : Operation → OwnershipEffect
  | claimAvailable .. => .takes
  | release .. | recoverExpired .. | completeQualityRejection .. | completeExtraction ..
  | scheduleRetry .. | failExtraction .. => .ends
  | createQueued .. | markDuplicate .. | correctFields .. | decide .. => .keeps

/-- The operation calls `Receipt.completeExtraction` for a receipt. -/
def Operation.completes (receiptId : Long) : Operation → Bool
  | completeQualityRejection claim _ _ | completeExtraction claim _ _ _ _
  | failExtraction claim _ _ _ => claim.receiptId = receiptId
  | _ => false

/-- The claims that a commit has handed out to its caller. -/
def Commit.handedOut (commit : Commit) : List ClaimedReceiptJob :=
  match commit.reply with
  | .claims claims => claims
  | _ => []

/-- The commit finishes, releases or recovers a job. -/
def Commit.ends (commit : Commit) (jobId : Long) : Prop :=
  commit.operation.ownership = .ends ∧ ∃ job ∈ commit.changes.jobs, job.id = jobId

/-- The claim is the most recent one of its job, and has not been finished,
released or recovered. -/
def Live : List Commit → ClaimedReceiptJob → Prop
  | [], _ => False
  | commit :: trace, claim =>
      claim ∈ commit.handedOut ∨
        Live trace claim ∧ (∀ other ∈ commit.handedOut, other.jobId ≠ claim.jobId) ∧
          ¬ commit.ends claim.jobId

def HandedOut (trace : List Commit) (claim : ClaimedReceiptJob) : Prop :=
  ∃ commit ∈ trace, claim ∈ commit.handedOut

/-- Workers call with claims that were handed out to them, at any later time and
in any order, and the drawn tokens never repeat. -/
def Disciplined : List Commit → Prop
  | [] => True
  | commit :: trace =>
      Disciplined trace ∧
        (∀ claim, commit.operation.claim? = some claim → HandedOut trace claim) ∧
        (commit.handedOut.map ClaimedReceiptJob.claimToken).Nodup ∧
        ∀ claim ∈ commit.handedOut, ∀ other, HandedOut trace other →
          other.claimToken ≠ claim.claimToken

theorem HandedOut.cons (h : HandedOut trace claim) : HandedOut (commit :: trace) claim := by
  obtain ⟨earlier, hmem, hclaim⟩ := h
  exact ⟨earlier, List.mem_cons_of_mem _ hmem, hclaim⟩

theorem Live.handedOut (h : Live trace claim) : HandedOut trace claim := by
  induction trace with
  | nil => exact h.elim
  | cons commit trace ih =>
      rcases h with hnew | ⟨hlive, -, -⟩
      · exact ⟨commit, by simp, hnew⟩
      · exact (ih hlive).cons

theorem Disciplined.suffix {earlier : List Commit} (h : Disciplined trace)
    (hsuffix : earlier <:+ trace) : Disciplined earlier := by
  induction trace with
  | nil => rwa [List.suffix_nil.mp hsuffix]
  | cons commit trace ih =>
      rcases List.suffix_cons_iff.mp hsuffix with rfl | hsuffix
      · exact h
      · exact ih h.1 hsuffix

/-- A token identifies the claim it was drawn for. -/
theorem Disciplined.eq_of_token (h : Disciplined trace) (hclaim : HandedOut trace claim)
    (hother : HandedOut trace other) (htoken : claim.claimToken = other.claimToken) :
    claim = other := by
  induction trace with
  | nil =>
      obtain ⟨_, hmem, -⟩ := hclaim
      exact absurd hmem (by simp)
  | cons commit trace ih =>
      obtain ⟨hearlier, -, hnodup, hfresh⟩ := h
      have hsplit : ∀ {c}, HandedOut (commit :: trace) c →
          c ∈ commit.handedOut ∨ HandedOut trace c := by
        intro c hhanded
        obtain ⟨by_, hmem, hc⟩ := hhanded
        rcases List.mem_cons.mp hmem with rfl | hmem
        · exact .inl hc
        · exact .inr ⟨by_, hmem, hc⟩
      rcases hsplit hclaim with hclaim | hclaim <;> rcases hsplit hother with hother | hother
      · exact List.inj_on_of_nodup_map hnodup hclaim hother htoken
      · exact absurd htoken.symm (hfresh _ hclaim _ hother)
      · exact absurd htoken (hfresh _ hother _ hclaim)
      · exact ih hearlier hclaim hother

/-! ## What a step does to the ownership of a job -/

/-- A step takes a waiting job, or gives up a claimed one, or leaves the
ownership as it is. -/
inductive ReceiptCase.OwnershipStep (operation : Operation) (x x' : ReceiptCase) : Prop
  | taken : operation.ownership = .takes → x.job.status ≠ .processing →
      x'.job.version = x.job.version + 1 → OwnershipStep operation x x'
  | ended : operation.ownership = .ends → x.job.status = .processing →
      x'.job.status ≠ .processing → x'.job.version = x.job.version + 1 →
      (∀ claim, operation.claim? = some claim →
        claim.jobId = x.job.id ∧ x.job.isOwnedBy claim.workerId claim.claimToken) →
      OwnershipStep operation x x'
  | kept : operation.ownership = .keeps → x'.job.status = x.job.status →
      x'.job.lockedBy = x.job.lockedBy → x'.job.claimToken = x.job.claimToken →
      OwnershipStep operation x x'

theorem ReceiptCase.Step.ownership (h : Step employees operation x events x') :
    OwnershipStep operation x x' := by
  have howned : ∀ {workerId claimToken : Option JString},
      x.job.isOwnedBy workerId claimToken → x.job.status = .processing :=
    fun howned => (ReceiptExtractionJob.isOwnedBy_iff.mp howned).1
  cases h with
  | claimed hclaim =>
      obtain ⟨hwaiting, rfl⟩ := ReceiptExtractionJob.claim_eq_ok hclaim
      refine .taken rfl ?_ rfl
      rcases hwaiting with hwaiting | hwaiting <;> simp [hwaiting]
  | released hid hrelease =>
      obtain ⟨hclaim, rfl⟩ := ReceiptExtractionJob.releaseClaim_eq_ok hrelease
      refine .ended rfl (howned hclaim) (by simp [ReceiptExtractionJob.flushed]) rfl ?_
      rintro claim ⟨⟩
      exact ⟨hid, hclaim⟩
  | recovered hrecover =>
      obtain ⟨hprocessing, -, rfl⟩ := ReceiptExtractionJob.recoverExpiredLease_eq_ok hrecover
      -- a recovery is made under no claim, the other ends under the one of the job
      refine .ended rfl hprocessing (by simp [ReceiptExtractionJob.flushed]) rfl ?_
      rintro claim ⟨⟩
  | qualityRejected hid _ hcomplete | extracted hid _ hcomplete =>
      obtain ⟨hclaim, rfl⟩ := ReceiptExtractionJob.complete_eq_ok hcomplete
      refine .ended rfl (howned hclaim) (by simp [ReceiptExtractionJob.flushed]) rfl ?_
      rintro claim ⟨⟩
      exact ⟨hid, hclaim⟩
  | retryScheduled hid _ hretry =>
      obtain ⟨hclaim, rfl⟩ := ReceiptExtractionJob.scheduleRetry_eq_ok hretry
      refine .ended rfl (howned hclaim) (by simp [ReceiptExtractionJob.flushed]) rfl ?_
      rintro claim ⟨⟩
      exact ⟨hid, hclaim⟩
  | failed hid _ hfail =>
      obtain ⟨hclaim, rfl⟩ := ReceiptExtractionJob.fail_eq_ok hfail
      refine .ended rfl (howned hclaim) (by simp [ReceiptExtractionJob.flushed]) rfl ?_
      rintro claim ⟨⟩
      exact ⟨hid, hclaim⟩
  | duplicateDeferred | duplicateMarked | corrected | decided =>
      exact .kept rfl rfl rfl rfl

/-! ## What a commit does to the ownership of a job -/

/-- The claim is what the worker takes away of a claimed job. -/
structure ClaimedReceiptJob.IsFor (claim : ClaimedReceiptJob) (job : ReceiptExtractionJob) :
    Prop where
  jobId : claim.jobId = job.id
  receiptId : claim.receiptId = job.receiptId
  workerId : claim.workerId = job.lockedBy
  claimToken : claim.claimToken = job.claimToken

theorem isFor_of_toClaimedJob {db : Database} {job : ReceiptExtractionJob}
    (h : ReceiptJobClaimService.toClaimedJob db job = .ok claim) : claim.IsFor job := by
  simp only [ReceiptJobClaimService.toClaimedJob, Outcome.bind_eq_ok, Outcome.orElseThrow_eq_ok,
    Outcome.pure_eq_ok] at h
  obtain ⟨receipt, hreceipt, rfl⟩ := h
  exact ⟨rfl, Database.id_of_findReceipt hreceipt, rfl, rfl⟩

theorem claimAvailable_of_reply {snapshot : Database} {claims : List ClaimedReceiptJob}
    {changes : Database.Changes} (h : operation.body snapshot = .ok (.claims claims, changes)) :
    ∃ workerId batchSize leaseDuration now tokens locked,
      operation = .claimAvailable workerId batchSize leaseDuration now tokens locked ∧
      ReceiptJobClaimService.claimAvailable snapshot workerId batchSize leaseDuration now tokens
        locked = .ok (claims, changes) := by
  cases operation <;> simp only [Operation.body, replyWith_eq_ok] at h <;>
    obtain ⟨result, hresult, hreply⟩ := h
  case claimAvailable =>
      cases hreply
      exact ⟨_, _, _, _, _, _, rfl, hresult⟩
  all_goals cases hreply

theorem claimAvailable_of_takes (h : operation.ownership = .takes) :
    ∃ workerId batchSize leaseDuration now tokens locked,
      operation = .claimAvailable workerId batchSize leaseDuration now tokens locked := by
  cases operation <;> first | exact ⟨_, _, _, _, _, _, rfl⟩ | cases h

/-- The claims that a commit hands out are those of the jobs it writes, one each. -/
theorem Run.handedOut (h : Run P employees (commit :: trace)) :
    commit.handedOut = [] ∨
      commit.operation.ownership = .takes ∧ commit.changes.created = none ∧
      (commit.changes.jobs.map ReceiptExtractionJob.id).Nodup ∧
      List.Forall₂ (fun job claim => claim.IsFor job ∧ job.status = .processing)
        commit.changes.jobs commit.handedOut := by
  obtain ⟨-, -, -, -, snapshot, -, hbody⟩ := h.head
  unfold Commit.handedOut
  split
  · rename_i claims hreply
    right
    rw [hreply] at hbody
    obtain ⟨workerId, batchSize, leaseDuration, now, tokens, locked, hoperation, hclaim⟩ :=
      claimAvailable_of_reply hbody
    obtain ⟨claimed, hclaimed, hnodup, hclaims, hchanges⟩ :=
      ReceiptJobClaimService.claimAvailable_eq_ok hclaim
    rw [hoperation, hchanges]
    refine ⟨rfl, rfl, hnodup, ?_⟩
    rw [List.forall₂_iff_zip] at hclaims ⊢
    refine ⟨hclaims.1, fun {job' claim} hmem => ⟨isFor_of_toClaimedJob (hclaims.2 hmem), ?_⟩⟩
    obtain ⟨job, -, hjob⟩ := hclaimed job' (List.of_mem_zip hmem).1
    rw [(ReceiptExtractionJob.claim_eq_ok hjob).2]
  · exact .inl rfl

/-- A claim of jobs hands out a claim for each of them. -/
theorem Run.handedOut_of_claimAvailable (h : Run P employees (commit :: trace))
    (htakes : commit.operation.ownership = .takes) {job : ReceiptExtractionJob}
    (hjob : job ∈ commit.changes.jobs) : ∃ claim ∈ commit.handedOut, claim.IsFor job := by
  obtain ⟨-, -, -, -, snapshot, -, hbody⟩ := h.head
  obtain ⟨_, _, _, _, _, _, hoperation⟩ := claimAvailable_of_takes htakes
  rw [hoperation] at hbody
  simp only [Operation.body, replyWith_eq_ok] at hbody
  obtain ⟨claims, hclaim, hreply⟩ := hbody
  obtain ⟨claimed, -, -, hclaims, hchanges⟩ := ReceiptJobClaimService.claimAvailable_eq_ok hclaim
  rw [hchanges] at hjob
  obtain ⟨claim, hmem, htaken⟩ := Outcome.exists_of_forall₂_left hclaims hjob
  refine ⟨claim, ?_, isFor_of_toClaimedJob htaken⟩
  simp only [Commit.handedOut, hreply]
  exact hmem

/-- The written job of a case. -/
theorem exists_written_job {changes : Database.Changes}
    (h : (x.updated changes).job.version ≠ x.job.version) :
    ∃ job ∈ changes.jobs, job.id = x.job.id ∧
      (x.updated changes).job = { job with version := x.job.version + 1 } := by
  rcases Table.updated_cases changes.jobs x.job with ⟨hsame, -⟩ | ⟨job, hmem, hid, hupdated⟩
  · exact absurd (congrArg ReceiptExtractionJob.version hsame) h
  · exact ⟨job, hmem, hid, hupdated⟩

/-- A job that a commit has written belongs to a stored case, which takes a step. -/
theorem Run.step_of_written_job (h : Run P employees (commit :: trace))
    (hcreated : commit.changes.created = none) {job : ReceiptExtractionJob}
    (hjob : job ∈ commit.changes.jobs) :
    ∃ x, (current employees trace).HasCase x ∧ x.job.id = job.id ∧
      commit.after.HasCase (x.updated commit.changes) ∧
      (x.updated commit.changes).job.version = x.job.version + 1 ∧
      Step employees commit.operation x (eventsFor x.receipt.id commit.changes.events)
        (x.updated commit.changes) := by
  have hsettled := h.settled hcreated
  obtain ⟨hrun, hbefore, -, hcommit, -⟩ := h.head
  rw [hbefore] at hcommit
  obtain ⟨receipts, jobs, -, hflush, -⟩ := Database.commit_written hcreated hcommit
  obtain ⟨stored, hstored, -⟩ := Table.version_of_flush hflush hjob
  obtain ⟨x, hx, rfl⟩ := hrun.current_refines.paired.of_job hstored
  have hid : x.job.id = job.id := Database.id_of_findJob hstored
  have hversion : (x.updated commit.changes).job.version = x.job.version + 1 := by
    rcases Table.updated_cases commit.changes.jobs x.job with ⟨-, hother⟩ | ⟨_, _, _, hupdated⟩
    · exact absurd hid.symm (hother job hjob)
    · exact congrArg ReceiptExtractionJob.version hupdated
  refine ⟨x, hx, hid, hsettled.hasCase_updated hcreated hcommit hx, hversion, ?_⟩
  rcases hsettled.settles hx with ⟨hsame, -⟩ | hstep
  · rw [hsame] at hversion
    exact absurd hversion (by simp)
  · exact hstep

/-- An operation that is called with a claim writes a job. -/
theorem jobs_of_claim? {snapshot : Database} {reply : Reply} {changes : Database.Changes}
    (hbody : operation.body snapshot = .ok (reply, changes))
    (hclaim : operation.claim? = some claim) :
    changes.created = none ∧ ∃ job, changes.jobs = [job] ∧ job.id = claim.jobId := by
  cases operation <;> simp only [Operation.body, replyWith_eq_ok] at hbody <;>
    obtain ⟨result, hresult, -⟩ := hbody <;> cases hclaim
  case release =>
      obtain ⟨job, job', hjob, hrelease, rfl⟩ := ReceiptJobClaimService.release_eq_ok hresult
      refine ⟨rfl, job', rfl, ?_⟩
      rw [(ReceiptExtractionJob.releaseClaim_eq_ok hrelease).2, ← Database.id_of_findJob hjob]
  case completeQualityRejection =>
      obtain ⟨job, _, job', hjob, -, -, hcomplete, rfl⟩ :=
        ReceiptExtractionLifecycleService.completeQualityRejection_eq_ok hresult
      refine ⟨rfl, job', rfl, ?_⟩
      rw [(ReceiptExtractionJob.complete_eq_ok hcomplete).2, ← Database.id_of_findJob hjob]
  case completeExtraction =>
      obtain ⟨job, _, job', _, hjob, -, -, hcomplete, -, rfl⟩ :=
        ReceiptExtractionLifecycleService.completeExtraction_eq_ok hresult
      refine ⟨rfl, job', rfl, ?_⟩
      rw [(ReceiptExtractionJob.complete_eq_ok hcomplete).2, ← Database.id_of_findJob hjob]
  case scheduleRetry =>
      obtain ⟨job, _, job', _, hjob, -, -, hretry, rfl⟩ :=
        ReceiptExtractionLifecycleService.scheduleRetry_eq_ok hresult
      refine ⟨rfl, job', rfl, ?_⟩
      rw [(ReceiptExtractionJob.scheduleRetry_eq_ok hretry).2, ← Database.id_of_findJob hjob]
  case failExtraction =>
      obtain ⟨job, _, job', hjob, -, -, hfail, rfl⟩ :=
        ReceiptExtractionLifecycleService.failExtraction_eq_ok hresult
      refine ⟨rfl, job', rfl, ?_⟩
      rw [(ReceiptExtractionJob.fail_eq_ok hfail).2, ← Database.id_of_findJob hjob]

theorem ends_of_claim? (h : operation.claim? = some claim) : operation.ownership = .ends := by
  cases operation <;> first | rfl | exact absurd h (by simp [Operation.claim?])

/-- A commit with a claim takes the claimed case one step. -/
theorem Run.step_of_claim? (h : Run P employees (commit :: trace))
    (hclaim : commit.operation.claim? = some claim) :
    ∃ x, (current employees trace).HasCase x ∧ x.job.id = claim.jobId ∧
      x.job.isOwnedBy claim.workerId claim.claimToken ∧
      commit.after.HasCase (x.updated commit.changes) ∧
      Step employees commit.operation x (eventsFor x.receipt.id commit.changes.events)
        (x.updated commit.changes) ∧
      commit.ends claim.jobId := by
  obtain ⟨-, -, -, -, snapshot, -, hbody⟩ := h.head
  obtain ⟨hcreated, job, hjobs, hjobId⟩ := jobs_of_claim? hbody hclaim
  obtain ⟨x, hx, hid, hafter, hversion, hstep⟩ :=
    h.step_of_written_job hcreated (show job ∈ commit.changes.jobs by simp [hjobs])
  refine ⟨x, hx, hid.trans hjobId, ?_, hafter, hstep, ends_of_claim? hclaim, job,
    by simp [hjobs], hjobId⟩
  cases hstep.ownership with
  | taken hends | kept hends =>
      rw [ends_of_claim? hclaim] at hends
      exact absurd hends (by simp)
  | ended _ _ _ _ howned => exact (howned claim hclaim).2

/-! ## Live claims and stored jobs -/

/-- A live claim owns its job, and a job that is being processed has a live
claim with its token. -/
structure Held (employees : Table Employee) (trace : List Commit) : Prop where
  owns : ∀ {claim : ClaimedReceiptJob}, Live trace claim →
    ∃ x, (current employees trace).HasCase x ∧
    x.job.id = claim.jobId ∧ x.receipt.id = claim.receiptId ∧
    x.job.isOwnedBy claim.workerId claim.claimToken
  claimed : ∀ {x : ReceiptCase}, (current employees trace).HasCase x → x.job.status = .processing →
    ∃ claim, Live trace claim ∧ claim.jobId = x.job.id ∧ claim.claimToken = x.job.claimToken

/-- A commit that leaves the ownership of a job alone leaves its claim alive. -/
theorem Run.live_of_kept (h : Run P employees (commit :: trace)) (hlive : Live trace claim)
    (hkept : commit.operation.ownership = .keeps ∨
      ∀ job ∈ commit.changes.jobs, job.id ≠ claim.jobId) :
    Live (commit :: trace) claim := by
  refine .inr ⟨hlive, ?_, ?_⟩
  · intro other hother hsame
    rcases h.handedOut with hnone | ⟨htakes, -, -, hjobs⟩
    · rw [hnone] at hother
      exact absurd hother (by simp)
    · rcases hkept with hkeeps | huntouched
      · rw [htakes] at hkeeps
        exact absurd hkeeps (by simp)
      · obtain ⟨job, hjob, hfor, -⟩ := Outcome.exists_of_forall₂_right hjobs hother
        exact huntouched job hjob (hfor.jobId.symm.trans hsame)
  · intro hended
    obtain ⟨hends, job, hjob, hjobId⟩ := hended
    rcases hkept with hkeeps | huntouched
    · rw [hends] at hkeeps
      exact absurd hkeeps (by simp)
    · exact huntouched job hjob hjobId

/-- A job that is handed out is stored with the token of its new claim. -/
theorem Run.owns_of_handedOut (h : Run P employees (commit :: trace))
    (hclaim : claim ∈ commit.handedOut) :
    ∃ x, commit.after.HasCase x ∧ x.job.id = claim.jobId ∧ x.receipt.id = claim.receiptId ∧
      x.job.isOwnedBy claim.workerId claim.claimToken := by
  rcases h.handedOut with hnone | ⟨-, hcreated, hnodup, hjobs⟩
  · rw [hnone] at hclaim
    exact absurd hclaim (by simp)
  · obtain ⟨job, hjob, hfor, hprocessing⟩ := Outcome.exists_of_forall₂_right hjobs hclaim
    obtain ⟨x, hx, hid, hafter, hversion, -⟩ := h.step_of_written_job hcreated hjob
    have hchanged : (x.updated commit.changes).job.version ≠ x.job.version := by omega
    obtain ⟨written, hwritten, hwrittenId, hupdated⟩ := exists_written_job hchanged
    obtain rfl := List.inj_on_of_nodup_map hnodup hwritten hjob (hwrittenId.trans hid)
    refine ⟨x.updated commit.changes, hafter, ?_, ?_, ?_⟩
    · rw [hupdated]
      exact hfor.jobId.symm
    · rw [← hafter.receiptId, hupdated]
      exact hfor.receiptId.symm
    · rw [hupdated]
      exact ReceiptExtractionJob.isOwnedBy_iff.mpr
        ⟨hprocessing, hfor.workerId.symm, hfor.claimToken.symm⟩

/-- One commit keeps the connection of live claims and stored jobs. -/
theorem Run.held_step (h : Run P employees (commit :: trace)) (ih : Held employees trace) :
    Held employees (commit :: trace) where
  owns := by
    intro claim hlive
    rcases hlive with hnew | ⟨hlive, -, hnotEnded⟩
    · exact h.owns_of_handedOut hnew
    · obtain ⟨x, hx, hid, hreceiptId, howned⟩ := ih.owns hlive
      have hprocessing := (ReceiptExtractionJob.isOwnedBy_iff.mp howned).1
      rcases h.kept_or_updated hx with ⟨hafter, -, -⟩ | ⟨hafter, hstep⟩
      · exact ⟨x, hafter, hid, hreceiptId, howned⟩
      · refine ⟨_, hafter, hstep.sameJob.id.trans hid, hstep.sameReceipt.id.trans hreceiptId, ?_⟩
        cases hstep.ownership with
        | taken _ hwaiting => exact absurd hprocessing hwaiting
        | ended hends _ _ hversion =>
            -- the commit writes the job, so it would have ended the claim
            have hchanged : (x.updated commit.changes).job.version ≠ x.job.version := by omega
            obtain ⟨job, hjob, hjobId, -⟩ := exists_written_job hchanged
            exact absurd ⟨hends, job, hjob, hjobId.trans hid⟩ hnotEnded
        | kept _ hstatus hlockedBy htoken =>
            rw [ReceiptExtractionJob.isOwnedBy_iff] at howned ⊢
            rwa [hstatus, hlockedBy, htoken]
  claimed := by
    intro x' hx' hprocessing
    rcases h.created_or_moved hx' with ⟨_, _, _, _, _, _, _, _, -, rfl, -⟩ | ⟨x, hx, hmoves⟩
    · exact absurd hprocessing (by simp [intake, ReceiptExtractionJob.new])
    · rcases h.kept_or_updated hx with ⟨hafter, -, huntouched⟩ | ⟨hafter, hstep⟩
      · obtain rfl := h.current_refines.paired.unique hafter hx' hmoves.sameReceipt.id.symm
        obtain ⟨claim, hlive, hid, htoken⟩ := ih.claimed hx hprocessing
        exact ⟨claim, h.live_of_kept hlive (.inr (hid ▸ huntouched)), hid, htoken⟩
      · obtain rfl := h.current_refines.paired.unique hafter hx'
          (hstep.sameReceipt.id.trans hmoves.sameReceipt.id.symm)
        cases hstep.ownership with
        | taken htakes _ hversion =>
            -- the new claim is the live one
            have hchanged : (x.updated commit.changes).job.version ≠ x.job.version := by omega
            obtain ⟨job, hjob, hjobId, hupdated⟩ := exists_written_job hchanged
            obtain ⟨claim, hclaim, hfor⟩ := h.handedOut_of_claimAvailable htakes hjob
            refine ⟨claim, .inl hclaim, ?_, ?_⟩
            · rw [hupdated]
              exact hfor.jobId
            · rw [hupdated]
              exact hfor.claimToken
        | ended _ _ hnot => exact absurd hprocessing hnot
        | kept hkeeps hstatus _ htoken =>
            obtain ⟨claim, hlive, hid, hclaimToken⟩ := ih.claimed hx (hstatus ▸ hprocessing)
            exact ⟨claim, h.live_of_kept hlive (.inl hkeeps), hid.trans hstep.sameJob.id.symm,
              hclaimToken.trans htoken.symm⟩

theorem Run.held (h : Run P employees trace) : Held employees trace := by
  induction trace with
  | nil => exact ⟨fun hlive => hlive.elim, fun hx => absurd hx.receipt (by
      simp [current, Database.initial, Database.receiptRow])⟩
  | cons commit trace ih => exact h.held_step (ih h.head.1)

/-! ## One transition for a claim, one outcome for a receipt -/

/-- An operation that commits with a claim commits with a live one. -/
theorem Run.live_of_claim? (h : Run P employees (commit :: trace))
    (hdisciplined : Disciplined (commit :: trace))
    (hclaim : commit.operation.claim? = some claim) : Live trace claim := by
  obtain ⟨hearlier, hcalled, -⟩ := hdisciplined
  obtain ⟨x, hx, hid, howned, -⟩ := h.step_of_claim? hclaim
  obtain ⟨hprocessing, -, htoken⟩ := ReceiptExtractionJob.isOwnedBy_iff.mp howned
  obtain ⟨holder, hlive, -, hholder⟩ := h.head.1.held.claimed hx hprocessing
  rwa [hearlier.eq_of_token (hcalled claim hclaim) hlive.handedOut
    (htoken.symm.trans hholder.symm)]

/-- Two live claims of one job are the same claim. -/
theorem Run.live_unique (h : Run P employees trace) (hdisciplined : Disciplined trace)
    (hclaim : Live trace claim) (hother : Live trace other) (hid : claim.jobId = other.jobId) :
    claim = other := by
  obtain ⟨x, hx, hxid, -, hxowned⟩ := h.held.owns hclaim
  obtain ⟨y, hy, hyid, -, hyowned⟩ := h.held.owns hother
  obtain rfl := hx.eq_of_jobId hy (hxid.trans (hid.trans hyid.symm))
  have hxtoken := (ReceiptExtractionJob.isOwnedBy_iff.mp hxowned).2.2
  have hytoken := (ReceiptExtractionJob.isOwnedBy_iff.mp hyowned).2.2
  exact hdisciplined.eq_of_token hclaim.handedOut hother.handedOut (hxtoken.symm.trans hytoken)

theorem Disciplined.handedOut_of_claim? (h : Disciplined trace) (hmem : commit ∈ trace)
    (hclaim : commit.operation.claim? = some claim) : HandedOut trace claim := by
  induction trace with
  | nil => exact absurd hmem (by simp)
  | cons last trace ih =>
      rcases List.mem_cons.mp hmem with rfl | hmem
      · exact (h.2.1 claim hclaim).cons
      · exact (ih h.1 hmem).cons

/-- A claim that has been used is dead from then on. -/
theorem Run.not_live_of_used (h : Run P employees trace) (hdisciplined : Disciplined trace)
    (hmem : commit ∈ trace) (hclaim : commit.operation.claim? = some claim) :
    ¬ Live trace claim := by
  induction trace with
  | nil => exact absurd hmem (by simp)
  | cons last trace ih =>
      rcases List.mem_cons.mp hmem with rfl | hmem
      · intro hlive
        rcases hlive with hnew | ⟨-, -, hnotEnded⟩
        · rcases h.handedOut with hnone | ⟨htakes, -⟩
          · rw [hnone] at hnew
            exact absurd hnew (by simp)
          · rw [ends_of_claim? hclaim] at htakes
            exact absurd htakes (by simp)
        · obtain ⟨x, -, -, -, -, -, hends⟩ := h.step_of_claim? hclaim
          exact hnotEnded hends
      · intro hlive
        rcases hlive with hnew | ⟨hlive, -⟩
        · -- the token of a used claim is not drawn again
          exact hdisciplined.2.2.2 claim hnew claim
            (hdisciplined.1.handedOut_of_claim? hmem hclaim) rfl
        · exact ih h.head.1 hdisciplined.1 hmem hlive

theorem Run.claim?_once (h : Run P employees trace) (hdisciplined : Disciplined trace)
    (claim : ClaimedReceiptJob) :
    trace.countP (fun commit => commit.operation.claim? = some claim) ≤ 1 := by
  induction trace with
  | nil => simp
  | cons commit trace ih =>
      rw [List.countP_cons]
      by_cases hclaim : commit.operation.claim? = some claim
      · have hlive := h.live_of_claim? hdisciplined hclaim
        have hunused : trace.countP (fun commit => commit.operation.claim? = some claim) = 0 := by
          rw [List.countP_eq_zero]
          intro earlier hmem hused
          exact h.head.1.not_live_of_used hdisciplined.1 hmem (of_decide_eq_true hused) hlive
        simp [hunused, hclaim]
      · simpa [hclaim] using ih h.head.1 hdisciplined.1

theorem claim?_of_completes {receiptId : Long} (h : operation.completes receiptId = true) :
    ∃ claim, operation.claim? = some claim := by
  cases operation <;> first | exact ⟨_, rfl⟩ | exact absurd h (by simp [Operation.completes])

theorem ReceiptCase.Step.of_completes {receiptId : Long}
    (h : Step employees operation x events x') (hcompletes : operation.completes receiptId = true) :
    x.receipt.id = receiptId ∧ x'.job.status.IsFinal := by
  cases h with
  | qualityRejected _ hid hcomplete | extracted _ hid hcomplete =>
      have hid' := of_decide_eq_true hcompletes
      rw [(ReceiptExtractionJob.complete_eq_ok hcomplete).2]
      exact ⟨hid.symm.trans hid', .inl rfl⟩
  | failed _ hid hfail =>
      have hid' := of_decide_eq_true hcompletes
      rw [(ReceiptExtractionJob.fail_eq_ok hfail).2]
      exact ⟨hid.symm.trans hid', .inr rfl⟩
  | _ => exact absurd hcompletes (by simp [Operation.completes])

/-- After an outcome the job of the receipt is final. -/
theorem Run.final_of_completed (h : Run P employees trace) {receiptId : Long}
    (hmem : commit ∈ trace) (hcompletes : commit.operation.completes receiptId = true) :
    ∃ x, (current employees trace).HasCase x ∧ x.receipt.id = receiptId ∧
      x.job.status.IsFinal := by
  induction trace with
  | nil => exact absurd hmem (by simp)
  | cons last trace ih =>
      rcases List.mem_cons.mp hmem with rfl | hmem
      · obtain ⟨claim, hclaim⟩ := claim?_of_completes hcompletes
        obtain ⟨x, -, -, -, hafter, hstep, -⟩ := h.step_of_claim? hclaim
        obtain ⟨hid, hfinal⟩ := hstep.of_completes hcompletes
        exact ⟨_, hafter, hstep.sameReceipt.id.trans hid, hfinal⟩
      · obtain ⟨x, hx, hid, hfinal⟩ := ih h.head.1 hmem
        obtain ⟨x', hx', hmoves⟩ := h.exists_moved hx
        refine ⟨x', hx', hmoves.sameReceipt.id.trans hid, ?_⟩
        rcases hmoves with ⟨rfl, -⟩ | hstep
        · exact hfinal
        · rwa [hstep.final_job hfinal]

theorem Run.completes_once (h : Run P employees trace) (receiptId : Long) :
    trace.countP (fun commit => commit.operation.completes receiptId) ≤ 1 := by
  induction trace with
  | nil => simp
  | cons commit trace ih =>
      rw [List.countP_cons]
      by_cases hcompletes : commit.operation.completes receiptId = true
      · have hfirst : trace.countP (fun commit => commit.operation.completes receiptId) = 0 := by
          rw [List.countP_eq_zero]
          intro earlier hmem hearlier
          obtain ⟨x, hx, hid, hfinal⟩ := h.head.1.final_of_completed hmem hearlier
          obtain ⟨claim, hclaim⟩ := claim?_of_completes hcompletes
          obtain ⟨y, hy, -, howned, -, hstep, -⟩ := h.step_of_claim? hclaim
          obtain rfl := h.head.1.current_refines.paired.unique hx hy
            (hid.trans (hstep.of_completes hcompletes).1.symm)
          rw [(ReceiptExtractionJob.isOwnedBy_iff.mp howned).1] at hfinal
          rcases hfinal with hfinal | hfinal <;> exact absurd hfinal (by decide)
        simp [hfirst, hcompletes]
      · simpa [hcompletes] using ih h.head.1

/-! ## One outcome event -/

/-- The three events that record an outcome of the extraction. -/
def AuditAction.isOutcome : AuditAction → Bool
  | qualityRejected | extractionCompleted | extractionFailed => true
  | _ => false

theorem isOutcome_decidedAction (decision : ReviewDecision) :
    (decidedAction decision).isOutcome = false := by
  cases decision <;> rfl

/-- A step records no outcome, or one outcome with which its job becomes final. -/
theorem ReceiptCase.Step.outcome_events (h : Step employees operation x events x') :
    events.countP (fun event => event.action.isOutcome) = 0 ∨
      events.countP (fun event => event.action.isOutcome) = 1 ∧ ¬ x.job.status.IsFinal ∧
        x'.job.status.IsFinal := by
  have hnotFinal : ∀ {workerId claimToken : Option JString},
      x.job.isOwnedBy workerId claimToken → ¬ x.job.status.IsFinal := by
    intro workerId claimToken howned
    rw [(ReceiptExtractionJob.isOwnedBy_iff.mp howned).1]
    rintro (hfinal | hfinal) <;> exact absurd hfinal (by decide)
  cases h with
  | claimed _ hactions | recovered _ hactions =>
      left
      rw [List.countP_eq_zero]
      intro event hmem
      rw [hactions event hmem]
      simp [AuditAction.isOutcome]
  | qualityRejected _ _ hcomplete | extracted _ _ hcomplete =>
      obtain ⟨howned, rfl⟩ := ReceiptExtractionJob.complete_eq_ok hcomplete
      exact .inr ⟨rfl, hnotFinal howned, .inl rfl⟩
  | failed _ _ hfail =>
      obtain ⟨howned, rfl⟩ := ReceiptExtractionJob.fail_eq_ok hfail
      exact .inr ⟨rfl, hnotFinal howned, .inr rfl⟩
  | released | retryScheduled | duplicateDeferred | duplicateMarked | corrected => exact .inl rfl
  | decided =>
      left
      simp [decidedEvent, employeeEvent, isOutcome_decidedAction]

theorem ReceiptCase.Reaches.outcome_once {log : List AuditEvent} (h : Reaches P employees x log) :
    log.countP (fun event => event.action.isOutcome) ≤ 1 ∧
      (¬ x.job.status.IsFinal → log.countP (fun event => event.action.isOutcome) = 0) := by
  induction h with
  | created hpermitted =>
      obtain ⟨call, contentType, now, -, -, rfl⟩ := hpermitted
      simp [ReceiptUploadService.uploadedEvent, AuditEvent.attachTo, AuditAction.isOutcome]
  | step _ _ hstep ih =>
      rw [List.countP_append]
      rcases hstep.outcome_events with hquiet | ⟨hone, hnotFinal, hfinal⟩
      · rw [hquiet]
        refine ⟨ih.1, fun hnotFinal' => ih.2 fun hfinal => hnotFinal' ?_⟩
        rwa [hstep.final_job hfinal]
      · rw [hone, ih.2 hnotFinal]
        exact ⟨le_rfl, fun hnot => absurd hfinal hnot⟩

theorem Run.outcome_once (h : Run P employees trace) (receiptId : Long) :
    (current employees trace).auditEvents.countP
      (fun event => event.receiptId = receiptId && event.action.isOutcome) ≤ 1 := by
  by_cases hstored : ∃ x, (current employees trace).HasCase x ∧ x.receipt.id = receiptId
  · obtain ⟨x, hx, rfl⟩ := hstored
    have honce := (h.current_refines.reaches hx).outcome_once.1
    rw [eventsFor, List.countP_filter] at honce
    simpa [Bool.and_comm] using honce
  · have hnone : (current employees trace).auditEvents.countP
        (fun event => event.receiptId = receiptId && event.action.isOutcome) = 0 := by
      rw [List.countP_eq_zero]
      intro event hmem hevent
      obtain ⟨x, hx, hid⟩ := h.current_refines.audited event hmem
      simp only [Bool.and_eq_true, decide_eq_true_eq] at hevent
      exact hstored ⟨x, hx, hid.trans hevent.1⟩
    omega

/-! ## Stale calls -/

/-- A call with a claim that is no longer live fails, whatever snapshot it has
read, and changes nothing. -/
theorem Run.stale_rejected (h : Run P employees trace) (hdisciplined : Disciplined trace)
    (hclaim : operation.claim? = some claim) (hhanded : HandedOut trace claim)
    (hstale : ¬ Live trace claim) {snapshot : Database}
    (hsnapshot : snapshot ∈ snapshots employees trace) :
    ∃ e, (current employees trace).transact P snapshot operation.body =
      (.error e, current employees trace) := by
  rcases htransact : (current employees trace).transact P snapshot operation.body with
    ⟨outcome, after⟩
  cases outcome with
  | error e => exact ⟨e, by rw [transact_error htransact]⟩
  | ok reply =>
      -- if the call succeeded, it would extend the run, and its claim would be live
      exfalso
      obtain ⟨changes, hbody, hcommit⟩ := transact_ok htransact
      have hpermitted : operation.Permitted P employees := by
        cases operation <;> trivial
      have hrun := Run.commit h hpermitted hsnapshot hbody hcommit
      refine hstale (hrun.live_of_claim? ⟨hdisciplined, ?_, ?_⟩ hclaim)
      · intro called hcalled
        rw [hclaim] at hcalled
        cases hcalled
        exact hhanded
      · -- such an operation hands out nothing
        rcases hrun.handedOut with hnone | ⟨htakes, -⟩
        · rw [hnone]
          simp
        · rw [ends_of_claim? hclaim] at htakes
          exact absurd htakes (by simp)

/-- Ownership of extraction jobs, for any number of workers and any interleaving
of their calls: an operation commits with a claim only while the claim is live;
a job has at most one live claim; a claim is used at most once, by a run of
`process` that calls with no other claim; a receipt has at most one outcome,
recorded by at most one event; and a call with a stale claim changes no row. -/
theorem job_ownership (hrun : Run P employees trace) (hdisciplined : Disciplined trace) :
    (∀ earlier commit claim, commit :: earlier <:+ trace →
      commit.operation.claim? = some claim → Live earlier claim) ∧
    (∀ claim other, Live trace claim → Live trace other → claim.jobId = other.jobId →
      claim = other) ∧
    (∀ claim, trace.countP (fun commit => commit.operation.claim? = some claim) ≤ 1 ∧
      ReceiptExtractionProcessor.OneOutcome claim (ReceiptExtractionProcessor.process claim)) ∧
    (∀ receiptId, trace.countP (fun commit => commit.operation.completes receiptId) ≤ 1 ∧
      (current employees trace).auditEvents.countP
        (fun event => event.receiptId = receiptId && event.action.isOutcome) ≤ 1) ∧
    (∀ operation claim, Operation.claim? operation = some claim → HandedOut trace claim →
      ¬ Live trace claim → ∀ snapshot ∈ snapshots employees trace,
      ∃ e, (current employees trace).transact P snapshot operation.body =
        (.error e, current employees trace)) := by
  refine ⟨?_, ?_, ?_, ?_, ?_⟩
  · intro earlier commit claim hsuffix hclaim
    refine (hrun.suffix hsuffix).live_of_claim? ?_ hclaim
    exact hdisciplined.suffix hsuffix
  · exact fun claim other hclaim hother hid => hrun.live_unique hdisciplined hclaim hother hid
  · exact fun claim => ⟨hrun.claim?_once hdisciplined claim,
      ReceiptExtractionProcessor.process_oneOutcome claim⟩
  · exact fun receiptId => ⟨hrun.completes_once receiptId, hrun.outcome_once receiptId⟩
  · exact fun operation claim hclaim hhanded hstale snapshot hsnapshot =>
      hrun.stale_rejected hdisciplined hclaim hhanded hstale hsnapshot

/-! ## A worker that outlives its lease -/

namespace Sample

/-- The lease of a claimed job expires and the job is recovered. -/
def recoveryOperations : List Operation :=
  [intakeOf (uploadOf "key-1" imageA) 1 1 0, claimAll 1 "token", .recoverExpired 10 20 []]

def recoveryTrace : List Commit := (replay platform staff [] recoveryOperations).getD []

theorem recoveryTrace_run : Run platform staff recoveryTrace := by
  refine run_of_replay recoveryOperations .nil ?_ rfl
  simp only [recoveryOperations, List.forall_mem_cons]
  exact ⟨intakeOf_permitted .., trivial, trivial, by simp⟩

/-- A history without calls is disciplined as long as its tokens differ. -/
theorem disciplined_of_nodup (hclaims : ∀ commit ∈ trace, commit.operation.claim? = none)
    (htokens : (trace.flatMap fun commit =>
      commit.handedOut.map ClaimedReceiptJob.claimToken).Nodup) : Disciplined trace := by
  induction trace with
  | nil => trivial
  | cons commit trace ih =>
      rw [List.flatMap_cons, List.nodup_append] at htokens
      obtain ⟨hnew, hold, hdisjoint⟩ := htokens
      refine ⟨ih (fun c hc => hclaims c (by simp [hc])) hold, ?_, hnew, ?_⟩
      · intro claim hclaim
        rw [hclaims commit (by simp)] at hclaim
        exact absurd hclaim (by simp)
      · rintro claim hclaim other ⟨earlier, hmem, hother⟩ hsame
        refine hdisjoint _ (List.mem_map_of_mem hclaim) _ ?_ hsame.symm
        exact List.mem_flatMap.mpr ⟨earlier, hmem, List.mem_map_of_mem hother⟩

theorem recoveryTrace_disciplined : Disciplined recoveryTrace := by
  apply disciplined_of_nodup
  · decide +kernel
  · decide +kernel

end Sample

open Sample in
/-- The worker comes back after the recovery, and its result is rejected. -/
theorem recoveryTrace_stale :
    ∃ e, (current staff recoveryTrace).transact platform (current staff recoveryTrace)
        (Operation.completeExtraction (firstClaim 1 "token") ⟨some goodData, [], []⟩ 21 0 21).body =
      (.error e, current staff recoveryTrace) := by
  refine (job_ownership recoveryTrace_run recoveryTrace_disciplined).2.2.2.2 _ _ rfl ?_ ?_ _
    (current_mem_snapshots _ _)
  · exact ⟨recoveryTrace[1], List.getElem_mem _, by decide +kernel⟩
  · intro hlive
    rcases hlive with hnew | ⟨-, -, hnotEnded⟩
    · cases hnew
    · exact hnotEnded ⟨rfl, _, .head _, rfl⟩

end ReceiptReview
