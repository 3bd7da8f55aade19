import ReceiptReview.Model.Configuration
import ReceiptReview.Model.Job
import ReceiptReview.Program.Basic

/-!
# The extraction worker

`ReceiptExtractionWorker`: a semaphore of permits, taken before jobs are claimed and
given back when a job has ended.  `poll` is called by the scheduler; what the
executor accepts runs on its own threads, each of which takes a job that is waiting
and processes it.  Every access to the semaphore, to the flag, to the executor and
to the services is a request, so that other threads may act between any two of
them.
-/

namespace ReceiptReview

open Java Outcome

/-- The settings of the executor. -/
structure ThreadPoolTaskExecutor where
  corePoolSize : ℤ
  maxPoolSize : ℤ
  queueCapacity : ℤ
  deriving DecidableEq, Repr

/-- The queue has room for every job that a permit was taken for. -/
def ReceiptWorkerConfiguration.receiptExtractionExecutor (properties : ReceiptWorkerProperties) :
    ThreadPoolTaskExecutor where
  corePoolSize := properties.concurrency
  maxPoolSize := properties.concurrency
  queueCapacity := properties.concurrency

namespace ReceiptExtractionWorker

/-- The requests to the collaborators of the worker. -/
inductive WorkerRequest
  | isStopped
  | recoverExpired (batchSize : ℤ)
  | tryAcquire
  /-- `jobPermits.release(permits)`. -/
  | releasePermits (permits : ℕ)
  /-- `jobPermits.release()`. -/
  | releasePermit
  | claimAvailable (workerId : JString) (batchSize : ℕ) (leaseDuration : Option Duration)
  | execute (job : ClaimedReceiptJob)
  /-- A thread of the executor takes a job that is waiting. -/
  | take
  | process (job : ClaimedReceiptJob)
  /-- `claimService.release(job)`. -/
  | releaseClaim (job : ClaimedReceiptJob)
  deriving DecidableEq, Repr

/-- The executor answers `false` by a `TaskRejectedException`. -/
@[reducible] def WorkerRequest.Answer : WorkerRequest → Type
  | isStopped | tryAcquire | execute _ => Bool
  | releasePermits _ | releasePermit => Unit
  | recoverExpired _ | process _ | releaseClaim _ => Except Failure Unit
  | claimAvailable _ _ _ => Except Failure (List ClaimedReceiptJob)
  | take => ClaimedReceiptJob

/-- A part of a method of the worker. -/
abbrev WorkerProgram (α : Type) : Type := Program WorkerRequest WorkerRequest.Answer Failure α

open Program

/-- Make a request. -/
abbrev ask (r : WorkerRequest) : WorkerProgram r.Answer := request r

/-- The permits that are free, up to `maxJobs` of them. -/
def acquireJobPermits : ℕ → WorkerProgram ℕ
  | 0 => return 0
  | maxJobs + 1 => do
      if ← ask .tryAcquire then
        let acquiredCount ← acquireJobPermits maxJobs
        return acquiredCount + 1
      else return 0

/-- A failure to hand the job back is left to the recovery. -/
def returnUnstartedJob (job : ClaimedReceiptJob) : WorkerProgram Unit :=
  let handBack : WorkerProgram Unit := do
    ofExcept (← ask (.releaseClaim job))
  (handBack.tryCatch fun _ => pure ()).tryFinally (ask .releasePermit)

def submitJob (job : ClaimedReceiptJob) : WorkerProgram Unit := do
  if ← ask .isStopped then returnUnstartedJob job
  else if ← ask (.execute job) then return ()
  else returnUnstartedJob job

def submitJobs : List ClaimedReceiptJob → WorkerProgram Unit
  | [] => return ()
  | job :: jobs => do
      submitJob job
      submitJobs jobs

section Worker

variable (properties : ReceiptWorkerProperties) (workerId : JString)

/-- The jobs that are claimed for the permits, and none once the worker is stopped;
an exception is a value here, since the unused permits are given back first. -/
def claimJobs (permitCount : ℕ) :
    WorkerProgram (Except Failure (Option (List ClaimedReceiptJob))) := do
  if ← ask .isStopped then return .ok none
  else
    let jobs ← ask (.claimAvailable workerId permitCount properties.leaseDuration)
    return jobs.map some

/-- The count that the `finally` block sees. -/
def claimedCount : Except Failure (Option (List ClaimedReceiptJob)) → ℕ
  | .ok (some jobs) => jobs.length
  | _ => 0

def startNextJobs (maxJobs : ℕ) : WorkerProgram Unit := do
  if ← ask .isStopped then return ()
  else
    let permitCount ← acquireJobPermits maxJobs
    if permitCount = 0 then return ()
    else
      let claimed ← claimJobs properties workerId permitCount
      ask (.releasePermits (permitCount - claimedCount claimed))
      match claimed with
      | .ok (some jobs) => submitJobs jobs
      | .ok none => return ()
      | .error exception => throw exception

/-- The place of the job is filled again at once. -/
def onJobFinished : WorkerProgram Unit := do
  ask .releasePermit
  (startNextJobs properties workerId 1).tryCatch fun _ => pure ()

/-- Both handlers of the method log the exception. -/
def processJob (job : ClaimedReceiptJob) : WorkerProgram Unit :=
  let processing : WorkerProgram Unit := do
    ofExcept (← ask (.process job))
  (processing.tryCatch fun _ => pure ()).tryFinally (onJobFinished properties workerId)

def poll : WorkerProgram Unit := do
  if ← ask .isStopped then return ()
  else
    ofExcept (← ask (.recoverExpired properties.batchSize))
    startNextJobs properties workerId properties.batchSize.toNat

/-- A thread of the executor runs a task. -/
def runTask : WorkerProgram Unit := do
  let job ← ask .take
  processJob properties workerId job

/-- What a thread executes. -/
inductive WorkerCall
  | poll
  | task
  deriving DecidableEq, Repr

def WorkerCall.program : WorkerCall → WorkerProgram Unit
  | poll => ReceiptExtractionWorker.poll properties workerId
  | task => runTask properties workerId

end Worker

end ReceiptExtractionWorker

end ReceiptReview
