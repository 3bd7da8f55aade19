import ReceiptReview.Concurrent.Capacity
import ReceiptReview.Program.Script

/-!
# Capacity of the worker

A permit is taken before a job is claimed and stands for the job from then on, in
the hands of `startNextJobs`, in the queue of the executor and on one of its
threads, until `processJob` or `returnUnstartedJob` gives it back in its `finally`
block.  No request of a thread changes the sum of the permits that are free,
reserved and standing for a job, so this sum is the concurrency (`PermitRun.permits`);
in the same way no claimed job is lost or handled twice (`PermitRun.jobs`).
-/

namespace ReceiptReview

open Java Outcome ReceiptExtractionWorker

variable {ι : Type} {properties : ReceiptWorkerProperties} {workerId : JString}
variable {calls : ι → WorkerCall} {pool : PermitPool ι}

namespace ReceiptExtractionWorker

/-- The permits that running calls of `startNextJobs` have reserved. -/
noncomputable def reserved (pool : PermitPool ι) : ℕ :=
  Pool.total (fun past => (ledger past).reserved) pool

/-- The claimed jobs whose processing or return has not come to the point at which
their permit is given back. -/
noncomputable def unfinished (pool : PermitPool ι) : ℕ :=
  Pool.total (fun past => (ledger past).jobs.length) pool + pool.shared.queue.length

/-- How often a job was claimed and is neither processed nor handed back. -/
noncomputable def waiting (pool : PermitPool ι) (job : ClaimedReceiptJob) : ℕ :=
  Pool.total (fun past => (ledger past).waiting.count job) pool + pool.shared.queue.count job

/-- Every thread that has started has ended, and the executor has started every job. -/
def Idle (pool : PermitPool ι) : Prop :=
  pool.shared.queue = [] ∧ ∀ i, pool.threads i = none ∨ ∃ outcome, pool.Ended i outcome

variable [DecidableEq ι]

/-- The permits that are free, are reserved and stand for a job. -/
theorem PermitRun.permits (h : PermitRun properties workerId calls pool) :
    pool.shared.jobPermits + reserved pool + unfinished pool = properties.concurrency.toNat := by
  have hbalance : pool.shared.jobPermits + pool.shared.queue.length +
      Pool.total (fun past => (ledger past).reserved + (ledger past).jobs.length) pool =
        properties.concurrency.toNat := by
    refine Pool.Run.balanced (fun s => s.jobPermits + s.queue.length)
      (fun _ => properties.concurrency.toNat)
      (fun past => (ledger past).reserved + (ledger past).jobs.length) h rfl rfl
      (fun hrun => PermitRun.allowed hrun) ?_ ?_
    · intro i s past request answer s' hallows hserves
      have hpermits := (PermitState.Serves.effect hserves hallows).permits
      rw [ledger_cons]
      omega
    · rintro s s' (rfl | ⟨i, rfl | hdies⟩)
      · rfl
      · rfl
      · exact hdies.elim
  rw [Pool.Run.total_add h rfl rfl] at hbalance
  unfold reserved unfinished
  omega

/-- A claimed job is processed, handed back or waiting. -/
theorem PermitRun.jobs (h : PermitRun properties workerId calls pool) (job : ClaimedReceiptJob) :
    pool.shared.processed.count job + pool.shared.returned.count job + waiting pool job =
      pool.shared.claimed.count job := by
  have hbalance : pool.shared.processed.count job + pool.shared.returned.count job +
      pool.shared.queue.count job +
      Pool.total (fun past => (ledger past).waiting.count job) pool =
        pool.shared.claimed.count job := by
    refine Pool.Run.balanced
      (fun s => s.processed.count job + s.returned.count job + s.queue.count job)
      (fun s => s.claimed.count job) (fun past => (ledger past).waiting.count job) h rfl rfl
      (fun hrun => PermitRun.allowed hrun) ?_ ?_
    · intro i s past request answer s' hallows hserves
      exact (PermitState.Serves.effect hserves hallows).jobs job
    · rintro s s' (rfl | ⟨i, rfl | hdies⟩)
      · rfl
      · rfl
      · exact hdies.elim
  unfold waiting
  omega

/-- The threads of an idle worker hold nothing. -/
theorem PermitRun.total_idle (h : PermitRun properties workerId calls pool) (hidle : Idle pool)
    (f : Ledger → ℕ) (hempty : f .empty = 0) :
    Pool.total (fun past => f (ledger past)) pool = 0 := by
  refine finsum_eq_zero_of_forall_eq_zero fun i => ?_
  show f (ledger (pool.past i)) = 0
  have hledger : ledger (pool.past i) = .empty := by
    rcases hidle.2 i with hnone | ⟨outcome, hended⟩
    · rw [Pool.past, hnone]
      rfl
    · exact h.ends hended
  rw [hledger, hempty]

theorem PermitRun.unfinished_idle (h : PermitRun properties workerId calls pool)
    (hidle : Idle pool) : unfinished pool = 0 := by
  unfold unfinished
  rw [h.total_idle hidle (fun l => l.jobs.length) rfl, hidle.1]
  rfl

theorem PermitRun.waiting_idle (h : PermitRun properties workerId calls pool)
    (hidle : Idle pool) (job : ClaimedReceiptJob) : waiting pool job = 0 := by
  unfold waiting
  rw [h.total_idle hidle (fun l => l.waiting.count job) rfl, hidle.1]
  rfl

theorem concurrency_pos (hvalid : properties.validate = .ok ()) : 0 < properties.concurrency := by
  unfold ReceiptWorkerProperties.validate at hvalid
  simp only [bind_eq_ok, throwIf_eq_ok] at hvalid
  omega

end ReceiptExtractionWorker

variable [DecidableEq ι]

/-- The permits that are free, that running calls of `startNextJobs` have reserved and
that stand for an unfinished job are the concurrency:

* the worker never holds more unfinished jobs than its concurrency, and the queue of
  the executor has room for every job that is about to be submitted;
* a thread gives back only permits that it holds, each of them once, that of a job as
  soon as the job has been handled, and has none at its end, so an idle worker has all
  of its permits;
* a claimed job is waiting, or it was processed or handed back, once and not both. -/
structure CapacityConserved (properties : ReceiptWorkerProperties) (pool : PermitPool ι) :
    Prop where
  permits : (pool.shared.jobPermits + reserved pool + unfinished pool : ℤ) = properties.concurrency
  unfinished_le : (unfinished pool : ℤ) ≤ properties.concurrency
  room : ∀ i past job next, pool.threads i = some ⟨past, some (.call (.execute job) next)⟩ →
    (pool.shared.queue.length : ℤ) <
      (ReceiptWorkerConfiguration.receiptExtractionExecutor properties).queueCapacity
  allowed : ∀ i past request next, pool.threads i = some ⟨past, some (.call request next)⟩ →
    (ledger past).Allows request ∧ ((ledger past).handled = true → request = .releasePermit)
  ended : ∀ i outcome, pool.Ended i outcome → ledger (pool.past i) = .empty
  jobs : ∀ job, pool.shared.processed.count job + pool.shared.returned.count job +
    waiting pool job = pool.shared.claimed.count job
  handledOnce : pool.shared.claimed.Nodup →
    (pool.shared.processed ++ pool.shared.returned).Nodup
  idle : Idle pool → (pool.shared.jobPermits : ℤ) = properties.concurrency ∧
    (pool.shared.processed ++ pool.shared.returned).Perm pool.shared.claimed

/-- The permits of the worker are conserved, whatever its threads do. -/
theorem capacity_conserved (hvalid : properties.validate = .ok ())
    (h : PermitRun properties workerId calls pool) : CapacityConserved properties pool := by
  have hpositive := concurrency_pos hvalid
  have hpermits := h.permits
  refine
    { permits := by omega
      unfinished_le := by omega
      room := ?_
      allowed := ?_
      ended := fun i outcome hended => h.ends hended
      jobs := h.jobs
      handledOnce := ?_
      idle := ?_ }
  · -- a task is submitted for a permit that is still held, so the queue has room
    intro i past job next hthread
    obtain ⟨-, rest, hjobs⟩ := h.allowed hthread
    have hheld := Pool.Run.le_total h (fun past => (ledger past).jobs.length) rfl i
    rw [Pool.past_of_thread hthread] at hheld
    simp only [hjobs, List.length_cons] at hheld
    show (pool.shared.queue.length : ℤ) < properties.concurrency
    unfold unfinished at hpermits
    omega
  · intro i past request next hthread
    have hallows := h.allowed hthread
    exact ⟨hallows, hallows.eq_releasePermit⟩
  · -- what is processed or returned was claimed, each job as often
    intro hnodup
    rw [List.nodup_iff_count_le_one] at hnodup ⊢
    intro job
    have hjobs := h.jobs job
    have honce := hnodup job
    rw [List.count_append]
    omega
  · -- an idle worker holds no permit and no job
    intro hidle
    have hreserved : reserved pool = 0 := h.total_idle hidle Ledger.reserved rfl
    have hunfinished := h.unfinished_idle hidle
    refine ⟨by omega, List.perm_iff_count.mpr fun job => ?_⟩
    rw [List.count_append, ← h.jobs job, h.waiting_idle hidle job, Nat.add_zero]

/-! ## A job that is rejected beside one that is run -/

namespace Sample

/-- What a claim returns, and whether the executor accepts a job. -/
structure WorkerEnvironment where
  jobs : List ClaimedReceiptJob
  accepts : Bool

/-- Answer a request; handing a job back fails. -/
def serve (environment : WorkerEnvironment) (_ : ℕ) (s : PermitState) :
    (request : WorkerRequest) → Option (request.Answer × PermitState)
  | .isStopped => some (s.stopped, s)
  | .recoverExpired _ => some (.ok (), s)
  | .tryAcquire =>
      if 0 < s.jobPermits then some (true, { s with jobPermits := s.jobPermits - 1 })
      else some (false, s)
  | .releasePermits permits => some ((), { s with jobPermits := s.jobPermits + permits })
  | .releasePermit => some ((), { s with jobPermits := s.jobPermits + 1 })
  | .claimAvailable _ batchSize _ =>
      let jobs := environment.jobs.take batchSize
      some (.ok jobs, { s with claimed := jobs ++ s.claimed })
  | .execute job =>
      if environment.accepts then some (true, { s with queue := s.queue ++ [job] })
      else some (false, s)
  | .take =>
      match s.queue with
      | [] => none
      | job :: _ => some (job, { s with queue := s.queue.erase job })
  | .process job => some (.ok (), { s with processed := job :: s.processed })
  | .releaseClaim job => some (.error .other, { s with returned := job :: s.returned })

theorem serves_serve (environment : WorkerEnvironment) (i : ℕ) (s : PermitState)
    (request : WorkerRequest) (answer : request.Answer) (s' : PermitState)
    (h : serve environment i s request = some (answer, s')) : s.Serves request answer s' := by
  cases request with
  | tryAcquire =>
      simp only [serve] at h
      split at h
      · rename_i hfree
        cases h
        exact ⟨hfree, rfl⟩
      · rename_i hnone
        cases h
        exact ⟨by omega, rfl⟩
  | execute job =>
      simp only [serve] at h
      split at h
      · cases h
        rfl
      · cases h
        rfl
  | take =>
      simp only [serve] at h
      split at h
      · exact absurd h (by simp)
      · rename_i hqueue
        cases h
        exact ⟨hqueue ▸ List.mem_cons_self, rfl⟩
  | claimAvailable =>
      cases h
      exact ⟨List.length_take_le _ _, rfl⟩
  | isStopped =>
      cases h
      exact ⟨rfl, rfl⟩
  | recoverExpired | releasePermits | releasePermit | process | releaseClaim =>
      cases h
      rfl

def workerProperties : ReceiptWorkerProperties := ⟨1000, some 60000000000, 2, 2, none⟩

/-- One call of `poll`, and the threads of the executor. -/
def workerCalls : ℕ → WorkerCall
  | 0 => .poll
  | _ => .task

def claimedJob (jobId : Long) : ClaimedReceiptJob :=
  ⟨jobId, jobId, 1, 1, none, none, none, [], none, none, false⟩

/-- Two jobs are claimed; the first one is accepted, the second one is rejected. -/
def rejectingMoves : List (Pool.Move ℕ WorkerEnvironment) :=
  [.start 0] ++ List.replicate 10 (.serve 0 ⟨[claimedJob 1, claimedJob 2], true⟩) ++
    List.replicate 4 (.serve 0 ⟨[], false⟩) ++
    [.start 1] ++ List.replicate 8 (.serve 1 ⟨[], false⟩)

def rejectingPool : PermitPool ℕ :=
  (Pool.script? (fun i => (workerCalls i).program workerProperties []) serve
    (.initial (.start workerProperties)) rejectingMoves).getD (.initial (.start workerProperties))

theorem rejectingPool_run : PermitRun workerProperties [] workerCalls rejectingPool := by
  have hstart : PermitRun workerProperties [] workerCalls (.initial (.start workerProperties)) :=
    .initial
  unfold rejectingPool
  cases hscript : Pool.script? (fun i => (workerCalls i).program workerProperties []) serve
      (.initial (.start workerProperties)) rejectingMoves with
  | none => exact hstart
  | some pool =>
      exact Pool.Run.later hstart
        (Pool.steps_of_script rfl (fun _ _ => rfl) serves_serve hscript)

end Sample

open Sample in
/-- One of two jobs was processed, the other one was handed back, and the permits are
those that the worker has started with. -/
theorem rejectingPool_conserved :
    rejectingPool.shared.processed = [claimedJob 1] ∧
    rejectingPool.shared.returned = [claimedJob 2] ∧
    (rejectingPool.shared.jobPermits + reserved rejectingPool + unfinished rejectingPool : ℤ) = 2 :=
  ⟨by decide +kernel, by decide +kernel, (capacity_conserved rfl rejectingPool_run).permits⟩

end ReceiptReview
