import ReceiptReview.Results.FirstCome
import ReceiptReview.Results.PagePolicy

/-!
# No receipt is stuck

Each transaction has guards, writes its rows back under a version check, and takes its jobs in
batches; jobs are left behind by workers that die.  None of this leads into a dead end: from
every state of every run, one worker that polls, under any configuration that it starts
with, gets an outcome for any job that has none, whatever the outcome is; and then any employee
who may review the receipt can decide it either way.
-/

namespace ReceiptReview

open Java Store Outcome ReceiptCase ReceiptExtractionJobRepository CurrentEmployeeService
open ReceiptExtractionLifecycleService
open ReceiptCommandService hiding decide findReceipt

variable {P : Platform} {employees : Table Employee} {trace later : List Commit}
variable {commit : Commit} {operation : Operation} {x x' : ReceiptCase} {events : List AuditEvent}
variable {db : Database}

/-! ## One more commit -/

/-- The rows that a transaction has changed are stored with the versions that it has read. -/
structure Database.Holds (db : Database) (changes : Database.Changes) : Prop where
  created : changes.created = none
  receipts : ∀ receipt ∈ changes.receipts, ∃ stored,
    db.receiptRow receipt.id = some stored ∧ stored.version = receipt.version
  jobs : ∀ job ∈ changes.jobs, ∃ stored,
    db.findJob job.id = some stored ∧ stored.version = job.version

theorem Database.Holds.exists_commit {changes : Database.Changes} (h : db.Holds changes) :
    ∃ db', db.commit P changes = .ok db' := by
  obtain ⟨receipts, hreceipts⟩ := Table.exists_flush (t := db.receipts) h.receipts
  obtain ⟨jobs, hjobs⟩ := Table.exists_flush (t := db.jobs) h.jobs
  simp [Database.commit, Database.flush, hreceipts, hjobs, h.created]

/-- The operation has read the rows as they were when it has committed. -/
def Commit.ReadsCurrent (commit : Commit) : Prop :=
  commit.operation.body commit.before = .ok (commit.reply, commit.changes)

/-- A run goes on by an operation that reads the rows as they are. -/
theorem Run.exists_next (h : Run P employees trace) (hpermitted : operation.Permitted P employees)
    {reply : Reply} {changes : Database.Changes}
    (hbody : operation.body (current employees trace) = .ok (reply, changes))
    (hholds : (current employees trace).Holds changes) :
    ∃ commit, Run P employees (commit :: trace) ∧ commit.operation = operation ∧
      commit.ReadsCurrent := by
  obtain ⟨after, hcommit⟩ := hholds.exists_commit
  exact ⟨_, .commit h hpermitted (current_mem_snapshots _ _) hbody hcommit, rfl, hbody⟩

/-- The same operation over and over. -/
theorem Run.exists_replicate (h : Run P employees trace)
    (hnext : ∀ trace, Run P employees trace → ∃ commit : Commit,
      Run P employees (commit :: trace) ∧ commit.operation = operation ∧ commit.ReadsCurrent)
    (n : ℕ) :
    ∃ later, later.length = n ∧ Run P employees (later ++ trace) ∧
      ∀ commit ∈ later, commit.operation = operation ∧ commit.ReadsCurrent := by
  induction n with
  | zero => exact ⟨[], rfl, h, by simp⟩
  | succ n ih =>
      obtain ⟨later, hlength, hlater, hall⟩ := ih
      obtain ⟨commit, hcommit, hoperation, hreads⟩ := hnext _ hlater
      refine ⟨commit :: later, by simp [hlength], hcommit, ?_⟩
      intro other hother
      rcases List.mem_cons.mp hother with rfl | hother
      · exact ⟨hoperation, hreads⟩
      · exact hall other hother

/-- What holds of a case and is kept by the steps of an operation holds after its commits. -/
theorem Run.kept_along {I : ReceiptCase → Prop}
    (hstep : ∀ {y events y'}, Step employees operation y events y' → I y → I y')
    (h : Run P employees (later ++ trace)) (hall : ∀ commit ∈ later, commit.operation = operation)
    (hx : (current employees trace).HasCase x) (hI : I x) :
    ∃ x', (current employees (later ++ trace)).HasCase x' ∧ x'.receipt.id = x.receipt.id ∧
      x'.job.id = x.job.id ∧ I x' := by
  induction later with
  | nil => exact ⟨x, hx, rfl, rfl, hI⟩
  | cons commit later ih =>
      obtain ⟨y, hy, hyid, hyJob, hIy⟩ :=
        ih h.head.1 fun other hother => hall other (List.mem_cons_of_mem _ hother)
      obtain ⟨x', hx', hmoves⟩ := h.exists_moved hy
      refine ⟨x', hx', hmoves.sameReceipt.id.trans hyid, hmoves.sameJob.id.trans hyJob, ?_⟩
      rcases hmoves with ⟨rfl, -⟩ | hmoves
      · exact hIy
      · rw [hall commit List.mem_cons_self] at hmoves
        exact hstep hmoves hIy

/-! ## A worker that polls -/

/-- A worker that has been started, with some free permits. -/
structure PollSettings where
  properties : ReceiptWorkerProperties
  receiptProperties : ReceiptProperties
  drawn : JString
  workerId : JString
  started : ReceiptWorkerConfiguration.receiptWorkerIdentity properties receiptProperties drawn =
    .ok workerId
  /-- A configured identity of control characters is trimmed to nothing: the worker starts, but
  every claim of it throws. -/
  workerId_visible : workerId.isBlank = false
  permits : ℤ
  permits_pos : 0 < permits

namespace PollSettings

variable (settings : PollSettings)

def leaseDuration : Duration := settings.properties.leaseDuration.getD 0

/-- What the startup has checked. -/
theorem checked : 0 < settings.properties.batchSize ∧ settings.workerId.length ≤ 100 ∧
    0 < settings.leaseDuration := by
  have hstarted := settings.started
  simp only [ReceiptWorkerConfiguration.receiptWorkerIdentity, ReceiptWorkerProperties.validate,
    bind_eq_ok, throwIf_eq_ok] at hstarted
  obtain ⟨_, ⟨_, -, _, hlease, hsizes⟩, hstarted⟩ := hstarted
  cases hduration : settings.properties.leaseDuration with
  | none => simp [hduration] at hlease
  | some leaseDuration =>
      simp only [hduration, Option.all_some, decide_eq_true_eq, not_le] at hlease
      simp only [hduration, bind_eq_ok, throwIf_eq_ok, pure_eq_ok, not_lt] at hstarted
      obtain ⟨_, -, _, hlength, hvalue⟩ := hstarted
      refine ⟨not_le.mp (not_or.mp hsizes).1, hvalue ▸ hlength, ?_⟩
      simpa [PollSettings.leaseDuration, hduration] using hlease

def recover (now : Instant) : Operation :=
  .recoverExpired settings.properties.batchSize now []

def claim (now : Instant) (tokens : Long → JString) : Operation :=
  .claimAvailable settings.workerId settings.permits settings.leaseDuration now tokens []

end PollSettings

variable (settings : PollSettings)

/-- The recovery succeeds on the rows as they are. -/
theorem Run.exists_recover (h : Run P employees trace) (now : Instant) :
    ∃ commit, Run P employees (commit :: trace) ∧ commit.operation = settings.recover now ∧
      commit.ReadsCurrent := by
  set db := current employees trace with hdb
  obtain ⟨recovered, hrecovered⟩ : ∃ recovered,
      (lockExpiredJobs db now settings.properties.batchSize []).mapM (·.recoverExpiredLease now) =
        .ok recovered := by
    refine exists_mapM_eq_ok fun job hjob => ?_
    have hsorted := List.mem_of_mem_take hjob
    rw [List.mem_insertionSort, List.mem_filter] at hsorted
    simp only [Bool.and_eq_true, decide_eq_true_eq] at hsorted
    obtain ⟨-, ⟨hprocessing, hexpired⟩, -⟩ := hsorted
    simp [ReceiptExtractionJob.recoverExpiredLease, hprocessing, hexpired]
  have hbody : (settings.recover now).body db = .ok (.nothing, {
      jobs := recovered
      events := (lockExpiredJobs db now settings.properties.batchSize []).map
        (ExpiredJobRecoveryService.recoveredEvent now) }) := by
    simp [PollSettings.recover, Operation.body, replyWith,
      ExpiredJobRecoveryService.recoverExpired, throwIf, hrecovered,
      not_le.mpr settings.checked.1, Except.map, bind, Except.bind, pure, Except.pure]
  refine h.exists_next trivial hbody ⟨rfl, by simp, fun job hjob => ?_⟩
  obtain ⟨stored, hstored, hrecover⟩ :=
    exists_of_forall₂_right (forall₂_of_mapM_eq_ok hrecovered) hjob
  rw [(ReceiptExtractionJob.recoverExpiredLease_eq_ok hrecover).2.2]
  exact ⟨stored, Table.find?_of_mem (mem_lockExpiredJobs hstored), rfl⟩

/-- A claim succeeds on the rows as they are. -/
theorem Run.exists_claim (h : Run P employees trace) (now : Instant) (tokens : Long → JString) :
    ∃ commit, Run P employees (commit :: trace) ∧ commit.operation = settings.claim now tokens ∧
      commit.ReadsCurrent := by
  set db := current employees trace with hdb
  have hpaired : db.Paired := h.current_refines.paired
  obtain ⟨claimed, hclaimed⟩ : ∃ claimed,
      (lockAvailableJobs db now settings.permits []).mapM (fun job =>
        job.claim settings.workerId (tokens job.id) now (now + settings.leaseDuration)) =
          .ok claimed := by
    refine exists_mapM_eq_ok fun job hjob => ?_
    have hsorted := List.mem_of_mem_take hjob
    rw [List.mem_insertionSort, List.mem_filter] at hsorted
    simp only [Bool.and_eq_true, Bool.or_eq_true, decide_eq_true_eq] at hsorted
    unfold ReceiptExtractionJob.claim
    rw [if_neg (by tauto)]
    exact ⟨_, rfl⟩
  have hstored : ∀ job' ∈ claimed, ∃ job ∈ db.jobs.rows,
      job.claim settings.workerId (tokens job.id) now (now + settings.leaseDuration) =
        .ok job' := by
    intro job' hjob'
    obtain ⟨job, hjob, hclaim⟩ :=
      exists_of_forall₂_right (forall₂_of_mapM_eq_ok hclaimed) hjob'
    exact ⟨job, mem_lockAvailableJobs hjob, hclaim⟩
  obtain ⟨claims, hclaims⟩ : ∃ claims,
      claimed.mapM (ReceiptJobClaimService.toClaimedJob db) = .ok claims := by
    refine exists_mapM_eq_ok fun job' hjob' => ?_
    obtain ⟨job, hjob, hclaim⟩ := hstored job' hjob'
    -- every job has a receipt
    obtain ⟨x, hx, rfl⟩ := hpaired.of_job (Table.find?_of_mem hjob)
    rw [(ReceiptExtractionJob.claim_eq_ok hclaim).2]
    simp [ReceiptJobClaimService.toClaimedJob, hx.receiptId,
      Database.findReceipt_of_receiptRow hx.receipt, orElseThrow, bind, Except.bind, pure,
      Except.pure]
  have hvalid : ReceiptJobClaimService.validateClaimRequest settings.workerId settings.permits
      settings.leaseDuration = .ok () := by
    simp [ReceiptJobClaimService.validateClaimRequest, throwIf, settings.workerId_visible,
      not_lt.mpr settings.checked.2.1, not_le.mpr settings.permits_pos,
      not_le.mpr settings.checked.2.2, bind, Except.bind]
  have hbody : (settings.claim now tokens).body db = .ok (.claims claims, {
      jobs := claimed
      events := claimed.map (ReceiptJobClaimService.claimedEvent settings.workerId now
        (now + settings.leaseDuration)) }) := by
    simp [PollSettings.claim, Operation.body, replyWith, ReceiptJobClaimService.claimAvailable,
      hvalid, hclaimed, hclaims, Except.map, bind, Except.bind, pure, Except.pure]
  refine h.exists_next trivial hbody ⟨rfl, by simp, fun job' hjob' => ?_⟩
  obtain ⟨job, hjob, hclaim⟩ := hstored job' hjob'
  rw [(ReceiptExtractionJob.claim_eq_ok hclaim).2]
  exact ⟨job, Table.find?_of_mem hjob, rfl⟩

/-! ## The turn of a job comes -/

/-- Between a moment and a later one lie some of the commits. -/
theorem exists_later_of_suffix {moment : List Commit} (hsince : trace <:+ moment)
    (hmoment : moment <:+ later ++ trace) : ∃ newer, newer <:+ later ∧ moment = newer ++ trace := by
  obtain ⟨newer, rfl⟩ := hsince
  obtain ⟨newest, hall⟩ := hmoment
  rw [← List.append_assoc, List.append_cancel_right_eq] at hall
  exact ⟨newer, ⟨newest, hall⟩, rfl⟩

/-- Operations that each take one job at least take as many as they are. -/
theorem length_le_sum_passesOver {queue : JobQueue} {batchSize : ℤ} (hbatch : 0 < batchSize)
    (hoperation : queue.batch operation = some (batchSize, []))
    (hall : ∀ commit ∈ later, commit.operation = operation ∧ commit.ReadsCurrent) (jobId : Long) :
    later.length ≤ (later.map (queue.passesOver · jobId)).sum := by
  have hone : ∀ count ∈ later.map (queue.passesOver · jobId), 1 ≤ count := by
    intro count hcount
    obtain ⟨commit, hmem, rfl⟩ := List.mem_map.mp hcount
    obtain ⟨hsame, hreads⟩ := hall commit hmem
    rw [Commit.ReadsCurrent] at hreads
    simp only [QueueRule.passesOver, hsame ▸ hoperation, hreads, List.not_mem_nil,
      not_false_eq_true, and_self, if_true]
    omega
  simpa using List.length_le_sum_of_one_le _ hone

/-- An operation that takes jobs, over and over, takes each job that waits for it. -/
theorem Run.exists_taken {queue : JobQueue} {batchSize : ℤ} {I : ReceiptCase → Prop}
    (h : Run P employees trace) (taking : Operation) (hx : (current employees trace).HasCase x)
    (hwaits : queue.waits x.job = true) (hbatch : 0 < batchSize)
    (hoperation : queue.batch taking = some (batchSize, []))
    (hclock : queue.since x.job < taking.clock)
    (hnext : ∀ trace, Run P employees trace → ∃ commit : Commit,
      Run P employees (commit :: trace) ∧ commit.operation = taking ∧ commit.ReadsCurrent)
    (hstep : ∀ {y events y'}, Step employees taking y events y' → I y → I y') (hI : I x) :
    ∃ later x', Run P employees (later ++ trace) ∧
      (∀ commit ∈ later, commit.operation = taking) ∧
      (current employees (later ++ trace)).HasCase x' ∧ x'.job.id = x.job.id ∧ I x' ∧
      queue.waits x'.job = false := by
  -- so many that they cannot all pass the job over
  obtain ⟨later, hlength, hlater, hall⟩ := h.exists_replicate hnext
    (Line.rank (queue.line (current employees trace)) (queue.place x.job) + 1)
  have hcount : later.length ≤ (later.map (queue.passesOver · x.job.id)).sum :=
    length_le_sum_passesOver hbatch hoperation hall x.job.id
  rcases queue.left_or_passed hlater hx hwaits (fun commit hmem => by
      rw [(hall commit hmem).1]
      exact hclock) with ⟨moment, hsince, hmoment, y, hy, hyid, hleft⟩ | ⟨-, -, -, -, -, hpassing⟩
  · obtain ⟨newer, hnewer, rfl⟩ := exists_later_of_suffix hsince hmoment
    have hrun : Run P employees (newer ++ trace) := hlater.suffix hmoment
    have hsame : ∀ commit ∈ newer, commit.operation = taking :=
      fun commit hmem => (hall commit (hnewer.subset hmem)).1
    obtain ⟨x', hx', -, hid, hI'⟩ := hrun.kept_along hstep hsame hx hI
    obtain rfl := hy.eq_of_jobId hx' (hyid.trans hid.symm)
    exact ⟨newer, y, hrun, hsame, hx', hid, hI', hleft⟩
  · have hpassed := hpassing.rank_le
    omega

/-- A job that has no outcome gets to wait: its lease runs out and is recovered in its turn. -/
theorem Run.exists_waiting (h : Run P employees trace) (hx : (current employees trace).HasCase x)
    (hpending : x.receipt.status = none) :
    ∃ later x', Run P employees (later ++ trace) ∧
      (∀ commit ∈ later, ∃ now, commit.operation = settings.recover now) ∧
      (current employees (later ++ trace)).HasCase x' ∧ x'.receipt = x.receipt ∧
      x'.job.isWaiting = true := by
  cases hwaiting : x.job.isWaiting with
  | true => exact ⟨[], x, h, by simp, hx, rfl, hwaiting⟩
  | false =>
      have hprocessing : x.job.status = .processing := by
        have hisPending := (h.consistent hx).status_iff.mp hpending
        cases hstatus : x.job.status <;>
          simp_all [ExtractionJobStatus.isPending, ReceiptExtractionJob.isWaiting]
      obtain ⟨leaseUntil, hlease⟩ := Option.isSome_iff_exists.mp
        ((h.current_refines.reaches hx).leased hprocessing)
      have hleased : leasedJobs.waits x.job = true := by
        simp [leasedJobs, leaseRule, ReceiptExtractionJob.isLeased, hprocessing, hlease]
      have hlate : leasedJobs.since x.job < leaseUntil + 1 := by
        simp [leasedJobs, leaseRule, hlease]
      obtain ⟨later, x', hlater, hall, hx', -, ⟨hreceipt, hcase⟩, hleft⟩ := h.exists_taken
        (I := fun y => y.receipt = x.receipt ∧
          (y.job.isWaiting = true ∨ y.job.status = .processing))
        (settings.recover (leaseUntil + 1)) hx hleased settings.checked.1 rfl hlate
        (fun _ hrun => hrun.exists_recover settings (leaseUntil + 1))
        (fun {y events y'} hstep hI => by
          cases hstep with
          | recovered hrecover =>
              rw [(ReceiptExtractionJob.recoverExpiredLease_eq_ok hrecover).2.2]
              exact ⟨hI.1, .inl rfl⟩)
        ⟨rfl, .inr hprocessing⟩
      refine ⟨later, x', hlater, fun commit hmem => ⟨_, hall commit hmem⟩, hx', hreceipt,
        hcase.resolve_right fun hstill => ?_⟩
      -- a claimed job has a lease
      have hsome := (hlater.current_refines.reaches hx').leased hstill
      simp [leasedJobs, leaseRule, ReceiptExtractionJob.isLeased, hstill, hsome] at hleft

/-- A waiting job gets claimed. -/
theorem Run.exists_claimed (h : Run P employees trace) (hx : (current employees trace).HasCase x)
    (hwaiting : x.job.isWaiting = true) (tokens : Long → JString) :
    ∃ later x', Run P employees (later ++ trace) ∧
      (∀ commit ∈ later, ∃ now, commit.operation = settings.claim now tokens) ∧
      (current employees (later ++ trace)).HasCase x' ∧ x'.receipt = x.receipt ∧
      x'.job.status = .processing ∧ x'.job.lockedBy = some settings.workerId := by
  obtain ⟨later, x', hlater, hall, hx', -, ⟨hreceipt, hcase⟩, hleft⟩ := h.exists_taken
    (I := fun y => y.receipt = x.receipt ∧ (y.job.isWaiting = true ∨
      y.job.status = .processing ∧ y.job.lockedBy = some settings.workerId))
    (settings.claim (x.job.availableAt + 1) tokens) hx (show waitingJobs.waits x.job = true from
      hwaiting) settings.permits_pos rfl (lt_add_one x.job.availableAt)
    (fun _ hrun => hrun.exists_claim settings (x.job.availableAt + 1) tokens)
    (fun {y events y'} hstep hI => by
      cases hstep with
      | claimed hclaim =>
          rw [(ReceiptExtractionJob.claim_eq_ok hclaim).2]
          exact ⟨hI.1, .inr ⟨rfl, rfl⟩⟩)
    ⟨rfl, .inl hwaiting⟩
  refine ⟨later, x', hlater, fun commit hmem => ⟨_, hall commit hmem⟩, hx', hreceipt,
    hcase.resolve_left fun hstill => ?_⟩
  exact absurd (hstill.symm.trans hleft) (by simp)

/-! ## An outcome -/

/-- What gives a receipt a status leaves it open for decisions. -/
theorem ReceiptCase.Step.editable_of_completes (h : Step employees operation x events x')
    {receiptId : Long} (hcompletes : operation.completes receiptId) :
    validateEditableStatus x'.receipt = .ok () := by
  rw [validateEditableStatus_eq_ok]
  cases h <;> simp only [Operation.completes, Bool.false_eq_true] at hcompletes
  case qualityRejected quality _ _ _ _ _ =>
    refine ⟨_, rfl, ?_⟩
    unfold ReceiptExtractionLifecycleService.rejectedStatus
    split <;> simp
  case extracted extraction _ _ _ _ rules _ _ _ _ =>
    refine ⟨_, rfl, ?_⟩
    rcases route_cases extraction.data rules with hroute | hroute | hroute <;> simp [hroute]
  case failed => exact ⟨_, rfl, by simp⟩

variable {claim : ClaimedReceiptJob}

/-- Under the claim of the job, whatever outcome the worker reports is stored. -/
theorem Run.exists_completed (h : Run P employees trace)
    (hx : (current employees trace).HasCase x) (hjobId : x.job.id = claim.jobId)
    (hreceiptId : x.receipt.id = claim.receiptId)
    (howned : x.job.isOwnedBy claim.workerId claim.claimToken)
    (hclaim : operation.claim? = some claim) (hcompletes : operation.completes claim.receiptId) :
    ∃ commit x', Run P employees (commit :: trace) ∧ commit.operation = operation ∧
      commit.after.HasCase x' ∧ SameReceipt x.receipt x'.receipt ∧
      validateEditableStatus x'.receipt = .ok () := by
  set db := current employees trace with hdb
  -- the worker finds its job and the receipt of it
  have hjob : findOwnedJob db claim = .ok x.job :=
    findOwnedJob_eq_ok.mpr ⟨hjobId ▸ hx.job, hx.receiptId.trans hreceiptId, howned⟩
  have hreceipt : findReceipt db claim.receiptId = .ok x.receipt.reread := by
    rw [← hreceiptId]
    simp [findReceipt, orElseThrow, Database.findReceipt_of_receiptRow hx.receipt]
  obtain ⟨reply, changes, hbody, hholds⟩ : ∃ reply changes,
      operation.body db = .ok (reply, changes) ∧ db.Holds changes := by
    -- only the three outcomes are left, and each succeeds for the owner of the job
    cases operation <;> simp only [Operation.completes, Bool.false_eq_true] at hcompletes <;>
      cases hclaim
    all_goals
      refine ⟨_, _, by
        simp [Operation.body, replyWith, completeQualityRejection, completeExtraction,
          failExtraction, hjob, hreceipt, ReceiptExtractionJob.complete, ReceiptExtractionJob.fail,
          ReceiptExtractionJob.requireOwnership, howned, Except.map, bind, Except.bind, pure,
          Except.pure]
        exact ⟨rfl, rfl⟩, rfl, ?_, ?_⟩
      · simpa [Receipt.completeExtraction] using ⟨_, hx.receipt, rfl⟩
      · simpa using ⟨_, hx.job, rfl⟩
  have hpermitted : operation.Permitted P employees := by
    cases operation <;> trivial
  obtain ⟨commit, hrun, hoperation, -⟩ := h.exists_next hpermitted hbody hholds
  obtain ⟨y, hy, hyid, -, hafter, hstep, -⟩ := hrun.step_of_claim? (hoperation ▸ hclaim)
  obtain rfl := hy.eq_of_jobId hx (hyid.trans hjobId.symm)
  exact ⟨commit, _, hrun, hoperation, hafter, hstep.sameReceipt,
    hstep.editable_of_completes (hoperation ▸ hcompletes)⟩

/-! ## A decision -/

/-- A correction that fills in what an approval asks for. -/
def FieldCorrections.fill (shopName : JString) (date : LocalDate) (totalAmount : BigDecimal) :
    FieldCorrections where
  shopName := some shopName
  date := some date
  totalAmount := some totalAmount
  businessRegistrationNumber := none
  paymentMethod := none
  lineItems := none
  clearFields := []

/-- An operation of an employee that is accepted takes the case one step. -/
theorem Run.exists_edited (h : Run P employees trace) (edit : Operation)
    (hx : (current employees trace).HasCase x) (hpermitted : edit.Permitted P employees)
    (hedits : edit.edits = some x.receipt.id)
    {body : Database → Except Failure (Receipt × Database.Changes)}
    (hbody : ∀ db, edit.body db = replyWith .receipt (body db))
    (haccepts : Accepts P (current employees trace) body) :
    ∃ commit x' events, Run P employees (commit :: trace) ∧ commit.operation = edit ∧
      commit.after.HasCase x' ∧ Step employees edit x events x' := by
  obtain ⟨result, changes, db', hresult, hcommit⟩ := accepts_iff.mp haccepts
  have hrun := Run.commit h hpermitted (current_mem_snapshots _ _)
    ((hbody _).trans (replyWith_eq_ok.mpr ⟨_, hresult, rfl⟩)) hcommit
  obtain ⟨y, x', hy, hyid, hx', hstep⟩ := hrun.step_of_edits hedits
  have hsame : y.job = x.job := by
    have hfound := h.current_refines.paired.findJobByReceiptId hy
    rw [hyid, h.current_refines.paired.findJobByReceiptId hx] at hfound
    exact (Option.some.inj hfound).symm
  obtain rfl := hy.eq_of_jobId hx (congrArg _ hsame)
  exact ⟨_, x', _, hrun, rfl, hx', hstep⟩

section Decision

variable {session : Session} {employee : Employee}
  (hemployee : getCurrentEmployee employees session = .ok employee)
  (hloaded : session.Loaded employees)

include hemployee hloaded

theorem Run.exists_corrected (h : Run P employees trace)
    (hx : (current employees trace).HasCase x) (corrections : FieldCorrections)
    (hclear : corrections.clearFields.all CLEARABLE_FIELDS.contains)
    (hpermission : validateModifyPermission x.receipt employee = .ok ())
    (heditable : validateEditableStatus x.receipt = .ok ()) (today : LocalDate) (now : Instant) :
    ∃ commit x', Run P employees (commit :: trace) ∧
      commit.operation =
        .correctFields session x.receipt.id x.receipt.version corrections today now ∧
      commit.after.HasCase x' ∧
      x'.receipt = (corrected employee x.receipt.reread corrections today now).flushed := by
  have hcurrent : getCurrentEmployee (current employees trace).employees session =
      .ok employee := by
    rw [h.current_refines.employees]
    exact hemployee
  obtain ⟨commit, x', events, hrun, hoperation, hx', hstep⟩ :=
    h.exists_edited (.correctFields ..) hx hloaded rfl (fun _ => rfl)
      ((accepts_correctFields_iff hcurrent hx.receipt hclear).mpr ⟨hpermission, heditable⟩)
  refine ⟨commit, x', hrun, hoperation, hx', ?_⟩
  generalize x.receipt.id = id at hstep
  cases hstep with
  | corrected hemployee' =>
      rw [hemployee] at hemployee'
      cases hemployee'
      rfl

theorem Run.exists_decided (h : Run P employees trace)
    (hx : (current employees trace).HasCase x) (decision : ReviewDecision)
    (hpermission : validateReviewPermission x.receipt employee = .ok ())
    (heditable : validateEditableStatus x.receipt = .ok ())
    (happroval : decision = .approve → validateApproval x.receipt.reread = .ok ())
    (note : Option JString) (now : Instant) :
    ∃ commit x', Run P employees (commit :: trace) ∧
      commit.operation = .decide session x.receipt.id x.receipt.version decision note now ∧
      commit.after.HasCase x' ∧ x'.receipt.id = x.receipt.id ∧
      x'.receipt.status = some (decidedStatus decision) := by
  have hcurrent : getCurrentEmployee (current employees trace).employees session =
      .ok employee := by
    rw [h.current_refines.employees]
    exact hemployee
  obtain ⟨commit, x', events, hrun, hoperation, hx', hstep⟩ :=
    h.exists_edited (.decide ..) hx hloaded rfl (fun _ => rfl)
      ((accepts_decide_iff hcurrent hx.receipt).mpr ⟨hpermission, heditable, happroval⟩)
  refine ⟨commit, x', hrun, hoperation, hx', hstep.sameReceipt.id, ?_⟩
  generalize x.receipt.id = id at hstep
  cases hstep
  rfl

end Decision

theorem corrected_status (employee : Employee) (receipt : Receipt) (corrections : FieldCorrections)
    (today : LocalDate) (now : Instant) :
    (corrected employee receipt corrections today now).status = some .manualEntry ∨
      (corrected employee receipt corrections today now).status = some .needsReview ∨
      (corrected employee receipt corrections today now).status = some .autoApproved := by
  simp only [corrected, Receipt.updateData, Option.some.injEq]
  unfold correctedStatus
  simp only
  split
  · exact .inr (.inl rfl)
  · exact route_cases _ _

/-- A corrected receipt is open for decisions. -/
theorem validateEditableStatus_corrected (employee : Employee) (receipt : Receipt)
    (corrections : FieldCorrections) (today : LocalDate) (now : Instant) :
    validateEditableStatus (corrected employee receipt corrections today now).flushed =
      .ok () := by
  rw [validateEditableStatus_eq_ok]
  rcases corrected_status employee receipt corrections today now with
    hstatus | hstatus | hstatus <;> exact ⟨_, hstatus, by simp⟩

/-- A receipt that has been filled in is ready for an approval when it is read back. -/
theorem validateApproval_filled (employee : Employee) (receipt : Receipt) {shopName : JString}
    (date : LocalDate) {totalAmount : BigDecimal} (hname : shopName.trim.isBlank = false)
    (hamount : 0 < totalAmount.signum) (today : LocalDate) (now : Instant) :
    validateApproval (corrected employee receipt (.fill shopName date totalAmount) today
      now).flushed.reread = .ok () := by
  have hblank : shopName.isBlank = false := by
    rw [JString.isBlank, List.all_eq_false] at hname ⊢
    obtain ⟨unit, hunit, hvisible⟩ := hname
    exact ⟨unit, ((List.rdropWhile_prefix _ _).sublist.trans
      (List.dropWhile_sublist _)).subset hunit, hvisible⟩
  have hdata : (corrected employee receipt (.fill shopName date totalAmount) today
      now).currentData = some (FieldCorrections.applyTo (.fill shopName date totalAmount)
        receipt.currentData) := rfl
  have hopen : ¬ ((corrected employee receipt (.fill shopName date totalAmount) today now).status =
      some .needsRecapture ∨ (corrected employee receipt (.fill shopName date totalAmount) today
        now).status = some .unreadable) := by
    rcases corrected_status employee receipt (.fill shopName date totalAmount) today now with
      hstatus | hstatus | hstatus <;> simp [hstatus]
  unfold validateApproval Receipt.flushed Receipt.reread
  simp only [if_neg hopen, hdata]
  simp [ReceiptData.rebuild, JString.trim_trim, FieldCorrections.applyTo, FieldCorrections.fill,
    FieldCorrections.corrected, ReceiptData.of, ReceiptData.normalize, hblank, hname, hamount]

/-! ## From any state to either decision -/

/-- One worker and one reviewer: how the worker is started and what comes of its claims, whose
session the reviewer has and what the reviewer reads off a receipt. -/
structure Crew where
  settings : PollSettings
  tokens : Long → JString
  outcome : ClaimedReceiptJob → Operation
  outcome_claim : ∀ claim, (outcome claim).claim? = some claim
  outcome_completes : ∀ claim, (outcome claim).completes claim.receiptId
  session : Session
  shopName : JString
  date : LocalDate
  totalAmount : BigDecimal
  shopName_legible : shopName.trim.isBlank = false
  totalAmount_pos : 0 < totalAmount.signum

namespace Crew

/-- What the two do about a receipt at a moment of a run: the worker recovers leases, claims
jobs and reports what comes of its own claims, the reviewer fills the receipt in and decides. -/
inductive Does (crew : Crew) (id : Long) (trace : List Commit) : Operation → Prop
  | recover {now : Instant} : Does crew id trace (crew.settings.recover now)
  | claim {now : Instant} : Does crew id trace (crew.settings.claim now crew.tokens)
  | report {claim : ClaimedReceiptJob} :
      Live trace claim → claim.workerId = some crew.settings.workerId →
      Does crew id trace (crew.outcome claim)
  | fillIn {version : ℤ} {today : LocalDate} {now : Instant} :
      Does crew id trace (.correctFields crew.session id version
        (.fill crew.shopName crew.date crew.totalAmount) today now)
  | decide {version : ℤ} {decision : ReviewDecision} {note : Option JString} {now : Instant} :
      Does crew id trace (.decide crew.session id version decision note now)

/-- A run that goes on by what the two do. -/
inductive Continues (crew : Crew) (id : Long) (trace : List Commit) : List Commit → Prop
  | refl : Continues crew id trace trace
  | step {commit : Commit} {trace' : List Commit} :
      Continues crew id trace trace' → Does crew id trace' commit.operation →
      Continues crew id trace (commit :: trace')

variable {crew : Crew} {id : Long} {trace' : List Commit}

theorem Continues.append (h : Continues crew id trace trace')
    (hlater : ∀ commit ∈ later, ∀ moment, Does crew id moment commit.operation) :
    Continues crew id trace (later ++ trace') := by
  induction later with
  | nil => exact h
  | cons commit later ih =>
      refine .step (ih fun other hother => hlater other (List.mem_cons_of_mem _ hother)) ?_
      exact hlater commit List.mem_cons_self _

theorem Continues.trans {trace'' : List Commit} (h : Continues crew id trace trace')
    (h' : Continues crew id trace' trace'') : Continues crew id trace trace'' := by
  induction h' with
  | refl => exact h
  | step _ hdoes ih => exact .step ih hdoes

/-- A receipt that has no status gets one from the worker. -/
theorem exists_editable (crew : Crew) (h : Run P employees trace)
    (hx : (current employees trace).HasCase x) (hpending : x.receipt.status = none) :
    ∃ trace' x', Run P employees trace' ∧ Continues crew id trace trace' ∧
      (current employees trace').HasCase x' ∧ SameReceipt x.receipt x'.receipt ∧
      validateEditableStatus x'.receipt = .ok () := by
  obtain ⟨recoveries, y, hrecovered, hrecoveries, hy, hyx, hwaiting⟩ :=
    h.exists_waiting crew.settings hx hpending
  obtain ⟨claims, z, hclaimed, hclaims, hz, hzy, hprocessing, hworker⟩ :=
    hrecovered.exists_claimed crew.settings hy hwaiting crew.tokens
  -- the claim that the worker holds was handed out to it
  obtain ⟨claim, hlive, hjobId, htoken⟩ := hclaimed.held.claimed hz hprocessing
  obtain ⟨z', hz', hz'id, hreceiptId, howned⟩ := hclaimed.held.owns hlive
  obtain rfl := hz'.eq_of_jobId hz (hz'id.trans hjobId)
  have hclaimWorker : claim.workerId = some crew.settings.workerId := by
    rw [← (ReceiptExtractionJob.isOwnedBy_iff.mp howned).2.1]
    exact hworker
  obtain ⟨commit, x', hrun, hoperation, hx', hsame, heditable⟩ :=
    hclaimed.exists_completed hz hz'id hreceiptId howned (crew.outcome_claim claim)
      (crew.outcome_completes claim)
  refine ⟨_, x', hrun, ?_, hx', ?_, heditable⟩
  · refine .step (.append (.append .refl ?_) ?_) ?_
    · intro commit hmem moment
      obtain ⟨now, hrecover⟩ := hrecoveries commit hmem
      exact hrecover ▸ .recover
    · intro commit hmem moment
      obtain ⟨now, hclaim⟩ := hclaims commit hmem
      exact hclaim ▸ .claim
    · exact hoperation ▸ .report hlive hclaimWorker
  · exact hyx ▸ hzy ▸ hsame

variable {employee : Employee}
  (hemployee : getCurrentEmployee employees crew.session = .ok employee)
  (hloaded : crew.session.Loaded employees)

include hemployee hloaded

/-- A receipt that is open for decisions gets either of them from a reviewer. -/
theorem exists_decision (h : Run P employees trace) (hx : (current employees trace).HasCase x)
    (hpermission : validateReviewPermission x.receipt employee = .ok ())
    (heditable : validateEditableStatus x.receipt = .ok ()) (decision : ReviewDecision) :
    ∃ trace' x', Run P employees trace' ∧ Continues crew x.receipt.id trace trace' ∧
      (current employees trace').HasCase x' ∧ x'.receipt.id = x.receipt.id ∧
      x'.receipt.status = some (decidedStatus decision) := by
  cases decision with
  | reject =>
      obtain ⟨commit, x', hrun, hoperation, hx', hid, hstatus⟩ :=
        h.exists_decided hemployee hloaded hx .reject hpermission heditable (by simp)
          none 0
      exact ⟨_, x', hrun, .step .refl (hoperation ▸ .decide), hx', hid, hstatus⟩
  | approve =>
      -- what an approval requires is filled in before
      obtain ⟨hrole, owner, howner, hother⟩ := validateReviewPermission_eq_ok.mp hpermission
      have hmodify : validateModifyPermission x.receipt employee = .ok () :=
        validateModifyPermission_eq_ok.mpr
          ⟨owner, howner, fun hemployee => absurd hemployee hrole⟩
      obtain ⟨correction, y, hcorrected, hcorrection, hy, hfilled⟩ :=
        h.exists_corrected hemployee hloaded hx
          (.fill crew.shopName crew.date crew.totalAmount) rfl hmodify heditable 0 0
      have hid : y.receipt.id = x.receipt.id := by rw [hfilled]; rfl
      have hpermission' : validateReviewPermission y.receipt employee = .ok () :=
        validateReviewPermission_eq_ok.mpr ⟨hrole, owner, by rw [hfilled]; exact howner, hother⟩
      obtain ⟨approval, x', hrun, hoperation, hx', hsame, hstatus⟩ :=
        hcorrected.exists_decided hemployee hloaded hy .approve hpermission'
          (hfilled ▸ validateEditableStatus_corrected ..)
          (fun _ => hfilled ▸ validateApproval_filled _ _ _ crew.shopName_legible
            crew.totalAmount_pos ..) none 0
      refine ⟨_, x', hrun, .step (.step .refl (hcorrection ▸ .fillIn)) ?_, hx', hsame.trans hid,
        hstatus⟩
      rw [hoperation, hid]
      exact .decide

end Crew

/-- From every state of every run, a worker and a reviewer who did not submit the receipt can
take it to either decision, with nobody else doing anything, unless it has one: whatever the
workers before have left behind, whatever comes of the claims, and whatever the receipt lacks. -/
theorem no_dead_end (crew : Crew) (hrun : Run P employees trace) {employee : Employee}
    (hemployee : getCurrentEmployee employees crew.session = .ok employee)
    (hloaded : crew.session.Loaded employees) (hrole : employee.role ≠ .employee) {id : Long}
    {receipt : Receipt} (hstored : (current employees trace).receiptRow id = some receipt)
    {owner : Long} (howner : receipt.ownerEmployeeId = some owner) (hother : employee.id ≠ owner)
    (decision : ReviewDecision) :
    receipt.status = some .approved ∨ receipt.status = some .rejected ∨
      ∃ trace' receipt', Run P employees trace' ∧ crew.Continues id trace trace' ∧
        (current employees trace').receiptRow id = some receipt' ∧
        receipt'.status = some (decidedStatus decision) := by
  obtain ⟨x, hx, rfl⟩ := hrun.current_refines.paired.of_receipt hstored
  obtain rfl : x.receipt.id = id := Database.id_of_receiptRow hstored
  rw [or_iff_not_imp_left, or_iff_not_imp_left]
  intro hnotApproved hnotRejected
  obtain ⟨opened, y, hopened, hcontinues, hy, hsame, heditable⟩ : ∃ opened y,
      Run P employees opened ∧ crew.Continues x.receipt.id trace opened ∧
        (current employees opened).HasCase y ∧ SameReceipt x.receipt y.receipt ∧
        validateEditableStatus y.receipt = .ok () := by
    -- without a status the extraction has to end first, whatever it brings
    cases hstatus : x.receipt.status with
    | none => exact crew.exists_editable hrun hx hstatus
    | some status =>
        refine ⟨trace, x, hrun, .refl, hx, ⟨rfl, rfl, rfl, rfl⟩, ?_⟩
        rw [validateEditableStatus_eq_ok]
        exact ⟨status, hstatus, fun h => hnotApproved (h ▸ hstatus),
          fun h => hnotRejected (h ▸ hstatus)⟩
  have hpermission : validateReviewPermission y.receipt employee = .ok () :=
    validateReviewPermission_eq_ok.mpr ⟨hrole, owner, hsame.ownerEmployeeId.trans howner, hother⟩
  obtain ⟨trace', x', hrun', hdecided, hx', hid, hstatus⟩ :=
    crew.exists_decision hemployee hloaded hopened hy hpermission heditable decision
  refine ⟨trace', x'.receipt, hrun', hcontinues.trans (hsame.id ▸ hdecided), ?_, hstatus⟩
  rw [← hsame.id, ← hid]
  exact hx'.receipt

namespace Sample

/-- Another worker fails on every image, and the reviewer types the receipt in. -/
def secondCrew : Crew where
  settings := {
    properties := ⟨1000, some 10, 4, 4, some (.ofString "second")⟩
    receiptProperties := ⟨⟨.ofString "fake", 0⟩, ⟨3, 30⟩⟩
    drawn := .ofString "unused"
    workerId := .ofString "second"
    started := rfl
    workerId_visible := by decide
    permits := 1
    permits_pos := by decide }
  tokens id := .ofString ("second-" ++ toString id)
  outcome claim := .failExtraction claim (.ofString "INVALID_RESPONSE") none 40
  outcome_claim _ := rfl
  outcome_completes claim := by simp [Operation.completes]
  session := login 2 "reviewer"
  shopName := .ofString "Shop"
  date := 0
  totalAmount := ⟨1000, 0⟩
  shopName_legible := by decide
  totalAmount_pos := by decide

end Sample

open Sample in
/-- The worker that had claimed both photos is dead, and yet the second one can be approved. -/
theorem claimedTrace_approvable :
    ∃ trace' receipt', Run platform staff trace' ∧
      secondCrew.Continues 2 claimedTrace trace' ∧
      (current staff trace').receiptRow 2 = some receipt' ∧ receipt'.status = some .approved := by
  have hclaimed : Run platform staff claimedTrace :=
    recoveriesTrace_run.suffix ⟨recoveriesTrace.take 2, rfl⟩
  obtain ⟨receipt, hstored, howner, hstatus⟩ : ∃ receipt,
      (current staff claimedTrace).receiptRow 2 = some receipt ∧
        receipt.ownerEmployeeId = some 1 ∧ receipt.status = none :=
    ⟨_, rfl, by decide +kernel, by decide +kernel⟩
  have hemployee : getCurrentEmployee staff secondCrew.session =
      .ok (account 2 "reviewer" .reviewer) := rfl
  rcases no_dead_end secondCrew hclaimed hemployee (login_loaded _ _) (by decide) hstored howner
    (by decide) .approve with hfinal | hfinal | happroved
  · exact absurd (hstatus.symm.trans hfinal) (by simp)
  · exact absurd (hstatus.symm.trans hfinal) (by simp)
  · exact happroved

end ReceiptReview
