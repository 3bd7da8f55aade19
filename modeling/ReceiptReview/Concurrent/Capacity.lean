import ReceiptReview.Program.Balance
import ReceiptReview.Service.ExtractionWorker

/-!
# The permits of the worker

Any number of calls of `poll` and of threads of the executor, beside each other.  The
state is the semaphore, the flag, and the jobs that the executor has accepted and not
started; it remembers the jobs that were claimed, processed and handed back.  A claim
returns any number of jobs up to the requested one, the executor may accept or reject
any job, and every call to a service may fail.

What a thread of the worker holds is told by its transcript (`ledger`): the permits
that it has reserved for a claim, and the jobs that it has claimed or taken and not
yet passed on, of which the first one is in work.

`Allows` is what a thread may do with that: a permit is given back only if it is
reserved, or if the job in work has been processed or handed back; and a job is
passed on, processed or handed back only once.  Whatever its collaborators answer, a
thread keeps to it and ends with nothing (`along_program`).
-/

namespace ReceiptReview

open Java

namespace ReceiptExtractionWorker

abbrev WorkerExchange : Type := Exchange WorkerRequest WorkerRequest.Answer

abbrev WorkerTranscript : Type := Transcript WorkerRequest WorkerRequest.Answer

/-- What a thread holds.  The first job is `handled` from the moment at which it has
been processed or handed back until its permit is given back. -/
structure Ledger where
  reserved : ℕ
  jobs : List ClaimedReceiptJob
  handled : Bool
  deriving DecidableEq, Repr

namespace Ledger

def empty : Ledger := ⟨0, [], false⟩

/-- The ledger after an exchange. -/
def record (l : Ledger) : WorkerExchange → Ledger
  | ⟨.tryAcquire, true⟩ => { l with reserved := l.reserved + 1 }
  | ⟨.releasePermits permits, _⟩ => { l with reserved := l.reserved - permits }
  | ⟨.claimAvailable _ _ _, .ok jobs⟩ => { l with reserved := l.reserved - jobs.length, jobs }
  | ⟨.take, job⟩ => { l with jobs := [job] }
  | ⟨.execute _, true⟩ => { l with jobs := l.jobs.tail }
  | ⟨.process _, _⟩ | ⟨.releaseClaim _, _⟩ => { l with handled := true }
  | ⟨.releasePermit, _⟩ => { l with jobs := l.jobs.tail, handled := false }
  | _ => l

/-- What a thread may request. -/
def Allows (l : Ledger) : WorkerRequest → Prop
  | .take => l = empty
  | .claimAvailable _ batchSize _ => l = ⟨batchSize, [], false⟩
  | .releasePermits permits => l.handled = false ∧ permits ≤ l.reserved
  | .execute job | .process job | .releaseClaim job =>
      l.handled = false ∧ ∃ rest, l.jobs = job :: rest
  | .releasePermit => l.handled = true ∧ l.jobs ≠ []
  | .isStopped | .recoverExpired _ | .tryAcquire => l.handled = false

/-- Once its job has been handled, a thread gives its permit back. -/
theorem Allows.eq_releasePermit {l : Ledger} {request : WorkerRequest} (h : l.Allows request)
    (hhandled : l.handled = true) : request = .releasePermit := by
  cases request with
  | releasePermit => rfl
  | take | claimAvailable =>
      cases h
      exact absurd hhandled (by simp [empty])
  | releasePermits | execute | process | releaseClaim =>
      exact absurd (h.1.symm.trans hhandled) (by simp)
  | isStopped | recoverExpired | tryAcquire =>
      exact absurd (Eq.symm h |>.trans hhandled) (by simp)

/-- The jobs that are neither processed nor handed back. -/
def waiting (l : Ledger) : List ClaimedReceiptJob :=
  if l.handled then l.jobs.tail else l.jobs

end Ledger

def ledger (past : WorkerTranscript) : Ledger :=
  past.foldr (fun exchange l => l.record exchange) .empty

@[simp] theorem ledger_cons (exchange : WorkerExchange) (past : WorkerTranscript) :
    ledger (exchange :: past) = (ledger past).record exchange := rfl

/-- A claim returns at most as many jobs as were requested. -/
def Possible : (request : WorkerRequest) → request.Answer → Prop
  | .claimAvailable _ batchSize _, .ok jobs => jobs.length ≤ batchSize
  | _, _ => True

/-- A program requests only what its ledger allows, and ends with such a ledger. -/
abbrev accounts {α : Type} (p : WorkerProgram α) (post : Except Failure α → Ledger → Prop)
    (past : WorkerTranscript) : Prop :=
  Program.along Possible (fun past request => (ledger past).Allows request) p
    (fun outcome past => post outcome (ledger past)) past

/-! ## Rules -/

section Rules

variable {α β : Type} {past : WorkerTranscript} {p : WorkerProgram α}
variable {f : α → WorkerProgram β}

theorem accounts_ask {request : WorkerRequest} {f : request.Answer → WorkerProgram β}
    {post : Except Failure β → Ledger → Prop} (hallows : (ledger past).Allows request)
    (hf : ∀ answer, Possible request answer →
      accounts (f answer) post (⟨request, answer⟩ :: past)) :
    accounts (ask request >>= f) post past :=
  ⟨hallows, hf⟩

theorem accounts_bind {post : Except Failure β → Ledger → Prop}
    {post' : Except Failure α → Ledger → Prop} (hp : accounts p post' past)
    (hok : ∀ a past', post' (.ok a) (ledger past') → accounts (f a) post past')
    (herror : ∀ e l, post' (.error e) l → post (.error e) l) : accounts (p >>= f) post past := by
  rw [accounts, Program.along_bind]
  refine Program.along_mono hp fun outcome past' hpost => ?_
  cases outcome with
  | ok a => exact hok a past' hpost
  | error e => exact herror e _ hpost

/-- A handler that drops the exception. -/
theorem accounts_catch {p : WorkerProgram Unit} {post : Ledger → Prop}
    (hp : accounts p (fun _ => post) past) :
    accounts (p.tryCatch fun _ => pure ()) (fun outcome l => outcome = .ok () ∧ post l) past := by
  rw [accounts, Program.along_tryCatch]
  refine Program.along_mono hp fun outcome past' hpost => ?_
  cases outcome with
  | ok a => exact ⟨rfl, hpost⟩
  | error e => exact ⟨rfl, hpost⟩

theorem accounts_finally {q : WorkerProgram Unit} {post post' : Except Failure α → Ledger → Prop}
    (hp : accounts p post' past)
    (hq : ∀ outcome past', post' outcome (ledger past') →
      accounts q (fun ended l => ended = .ok () ∧ post outcome l) past') :
    accounts (p.tryFinally q) post past := by
  rw [accounts, Program.along_tryFinally]
  refine Program.along_mono hp fun outcome past' hpost => ?_
  refine accounts_bind (hq outcome past' hpost) (fun _ _ hended => hended.2) fun e l hended => ?_
  exact absurd hended.1 (by simp)

end Rules

/-! ## The methods -/

section Methods

variable {past : WorkerTranscript} {job : ClaimedReceiptJob} {rest jobs : List ClaimedReceiptJob}

theorem accounts_acquireJobPermits (maxJobs : ℕ) {reserved : ℕ}
    (hledger : ledger past = ⟨reserved, [], false⟩) :
    accounts (acquireJobPermits maxJobs)
      (fun outcome l => ∃ count, outcome = .ok count ∧ l = ⟨reserved + count, [], false⟩) past := by
  induction maxJobs generalizing past reserved with
  | zero => exact ⟨0, rfl, hledger⟩
  | succ maxJobs ih =>
      refine accounts_ask (congrArg Ledger.handled hledger) fun acquired _ => ?_
      cases acquired with
      | false => exact ⟨0, rfl, hledger⟩
      | true =>
          have hnext : ledger ((⟨.tryAcquire, true⟩ : WorkerExchange) :: past) =
              ⟨reserved + 1, [], false⟩ := by
            rw [ledger_cons, hledger]
            rfl
          refine accounts_bind (ih hnext) (fun count past' hpost => ?_) fun e l hpost => ?_
          · obtain ⟨_, hcount, hl⟩ := hpost
            cases hcount
            exact ⟨count + 1, rfl, by rw [hl, Nat.add_assoc, Nat.add_comm 1]⟩
          · obtain ⟨_, hcount, -⟩ := hpost
            exact absurd hcount (by simp)

/-- The permit of a job that has been handled is given back. -/
theorem ledger_releasePermit {reserved : ℕ}
    (hledger : ledger past = ⟨reserved, job :: rest, true⟩) :
    (ledger past).Allows .releasePermit ∧
      ledger ((⟨.releasePermit, ()⟩ : WorkerExchange) :: past) = ⟨reserved, rest, false⟩ := by
  rw [ledger_cons, hledger]
  exact ⟨⟨rfl, by simp⟩, rfl⟩

/-- The job is handed back, and its permit is given back, even if the former fails. -/
theorem accounts_returnUnstartedJob {reserved : ℕ}
    (hledger : ledger past = ⟨reserved, job :: rest, false⟩) :
    accounts (returnUnstartedJob job)
      (fun outcome l => outcome = .ok () ∧ l = ⟨reserved, rest, false⟩) past := by
  have hhandBack : accounts (ask (.releaseClaim job) >>= fun answer => Program.ofExcept answer)
      (fun _ l => l = ⟨reserved, job :: rest, true⟩) past := by
    refine accounts_ask ?_ fun answer _ => ?_
    · rw [hledger]
      exact ⟨rfl, rest, rfl⟩
    · show ledger (_ :: past) = _
      rw [ledger_cons, hledger]
      rfl
  refine accounts_finally (accounts_catch hhandBack) fun outcome past' hpost => ?_
  obtain ⟨hok, hhandled⟩ := hpost
  obtain ⟨hallows, hreleased⟩ := ledger_releasePermit hhandled
  exact ⟨hallows, fun _ _ => ⟨rfl, hok, hreleased⟩⟩

theorem accounts_submitJob {reserved : ℕ}
    (hledger : ledger past = ⟨reserved, job :: rest, false⟩) :
    accounts (submitJob job)
      (fun outcome l => outcome = .ok () ∧ l = ⟨reserved, rest, false⟩) past := by
  refine accounts_ask (congrArg Ledger.handled hledger) fun stopped _ => ?_
  have hasked : ledger ((⟨.isStopped, stopped⟩ : WorkerExchange) :: past) =
      ⟨reserved, job :: rest, false⟩ := hledger
  cases stopped with
  | true => exact accounts_returnUnstartedJob hasked
  | false =>
      refine accounts_ask ?_ fun accepted _ => ?_
      · rw [hasked]
        exact ⟨rfl, rest, rfl⟩
      · cases accepted with
        | false => exact accounts_returnUnstartedJob hasked
        | true =>
            refine ⟨rfl, ?_⟩
            rw [ledger_cons, hasked]
            rfl

theorem accounts_submitJobs {reserved : ℕ} (hledger : ledger past = ⟨reserved, jobs, false⟩) :
    accounts (submitJobs jobs)
      (fun outcome l => outcome = .ok () ∧ l = ⟨reserved, [], false⟩) past := by
  induction jobs generalizing past with
  | nil => exact ⟨rfl, hledger⟩
  | cons job jobs ih =>
      exact accounts_bind (accounts_submitJob hledger) (fun _ _ hpost => ih hpost.2)
        fun _ _ hpost => absurd hpost.1 (by simp)

variable (properties : ReceiptWorkerProperties) (workerId : JString)

/-- The claimed jobs take the place of their permits. -/
theorem accounts_claimJobs {permitCount : ℕ} (hledger : ledger past = ⟨permitCount, [], false⟩) :
    accounts (claimJobs properties workerId permitCount)
      (fun outcome l => ∃ claimed, outcome = .ok claimed ∧ claimedCount claimed ≤ permitCount ∧
        l = ⟨permitCount - claimedCount claimed, claimed.toOption.join.getD [], false⟩) past := by
  refine accounts_ask (congrArg Ledger.handled hledger) fun stopped _ => ?_
  have hasked : ledger ((⟨.isStopped, stopped⟩ : WorkerExchange) :: past) =
      ⟨permitCount, [], false⟩ := hledger
  cases stopped with
  | true => exact ⟨.ok none, rfl, Nat.zero_le _, hasked⟩
  | false =>
      refine accounts_ask hasked fun answer hpossible => ?_
      cases answer with
      | error e => exact ⟨.error e, rfl, Nat.zero_le _, hasked⟩
      | ok jobs =>
          refine ⟨.ok (some jobs), rfl, hpossible, ?_⟩
          rw [ledger_cons, hasked]
          rfl

/-- However a claim ends, nothing is left of its permits and of its jobs. -/
theorem accounts_startNextJobs (maxJobs : ℕ) (hledger : ledger past = .empty) :
    accounts (startNextJobs properties workerId maxJobs) (fun _ l => l = .empty) past := by
  refine accounts_ask (congrArg Ledger.handled hledger) fun stopped _ => ?_
  cases stopped with
  | true => exact hledger
  | false =>
      refine accounts_bind (accounts_acquireJobPermits maxJobs hledger) ?_ ?_
      · rintro permitCount past' ⟨_, hcount, hreserved⟩
        cases hcount
        rw [Nat.zero_add] at hreserved
        split
        · -- no permit is free, so nothing is claimed
          rename_i hzero
          subst hzero
          exact hreserved
        · refine accounts_bind (accounts_claimJobs properties workerId hreserved) ?_ ?_
          · rintro claimed past'' ⟨_, hclaimed, hle, hheld⟩
            cases hclaimed
            -- what was not claimed is released before the jobs are submitted
            refine accounts_ask ?_ fun _ _ => ?_
            · rw [hheld]
              exact ⟨rfl, Nat.le_refl _⟩
            · have hreleased : ledger ((⟨.releasePermits (permitCount - claimedCount claimed), ()⟩ :
                  WorkerExchange) :: past'') = ⟨0, claimed.toOption.join.getD [], false⟩ := by
                rw [ledger_cons, hheld]
                simp [Ledger.record]
              split
              · exact Program.along_mono (accounts_submitJobs hreleased) fun _ _ hpost => hpost.2
              · exact hreleased
              · exact hreleased
          · rintro e l ⟨_, hclaimed, -⟩
            exact absurd hclaimed (by simp)
      · rintro e l ⟨_, hcount, -⟩
        exact absurd hcount (by simp)

theorem accounts_processJob (hledger : ledger past = ⟨0, [job], false⟩) :
    accounts (processJob properties workerId job) (fun _ l => l = .empty) past := by
  have hprocess : accounts (ask (.process job) >>= fun answer => Program.ofExcept answer)
      (fun _ l => l = ⟨0, [job], true⟩) past := by
    refine accounts_ask ?_ fun answer _ => ?_
    · rw [hledger]
      exact ⟨rfl, [], rfl⟩
    · show ledger (_ :: past) = _
      rw [ledger_cons, hledger]
      rfl
  refine accounts_finally (accounts_catch hprocess) fun outcome past' hpost => ?_
  obtain ⟨hallows, hreleased⟩ := ledger_releasePermit hpost.2
  exact accounts_ask hallows fun _ _ =>
    accounts_catch (accounts_startNextJobs properties workerId 1 hreleased)

/-- Whatever a thread executes, it holds nothing at its end. -/
theorem along_program (call : WorkerCall) :
    accounts (call.program properties workerId) (fun _ l => l = .empty) [] := by
  cases call with
  | poll =>
      refine accounts_ask rfl fun stopped _ => ?_
      cases stopped with
      | true => rfl
      | false =>
          refine accounts_ask rfl fun recovered _ => ?_
          cases recovered with
          | error e => rfl
          | ok _ => exact accounts_startNextJobs properties workerId _ rfl
  | task => exact accounts_ask rfl fun job _ => accounts_processJob properties workerId rfl

end Methods

/-! ## The threads beside each other -/

/-- `queue` is what the executor has accepted and not started. -/
structure PermitState where
  jobPermits : ℕ
  stopped : Bool
  queue : List ClaimedReceiptJob
  claimed : List ClaimedReceiptJob
  processed : List ClaimedReceiptJob
  returned : List ClaimedReceiptJob
  deriving DecidableEq, Repr

namespace PermitState

/-- The worker as it is constructed, with validated properties. -/
def start (properties : ReceiptWorkerProperties) : PermitState where
  jobPermits := properties.concurrency.toNat
  stopped := false
  queue := []
  claimed := []
  processed := []
  returned := []

def stopPolling (s : PermitState) : PermitState := { s with stopped := true }

/-- A request of a thread is answered.  The executor starts the accepted jobs in any
order, each of them once. -/
def Serves (s : PermitState) (request : WorkerRequest) (answer : request.Answer)
    (s' : PermitState) : Prop :=
  match request, answer with
  | .isStopped, stopped => stopped = s.stopped ∧ s' = s
  | .recoverExpired _, _ => s' = s
  | .tryAcquire, true => 0 < s.jobPermits ∧ s' = { s with jobPermits := s.jobPermits - 1 }
  | .tryAcquire, false => s.jobPermits = 0 ∧ s' = s
  | .releasePermits permits, _ => s' = { s with jobPermits := s.jobPermits + permits }
  | .releasePermit, _ => s' = { s with jobPermits := s.jobPermits + 1 }
  | .claimAvailable _ batchSize _, .ok jobs =>
      jobs.length ≤ batchSize ∧ s' = { s with claimed := jobs ++ s.claimed }
  | .claimAvailable _ _ _, .error _ => s' = s
  | .execute job, true => s' = { s with queue := s.queue ++ [job] }
  | .execute _, false => s' = s
  | .take, job => job ∈ s.queue ∧ s' = { s with queue := s.queue.erase job }
  | .process job, _ => s' = { s with processed := job :: s.processed }
  | .releaseClaim job, _ => s' = { s with returned := job :: s.returned }

variable {s s' : PermitState} {request : WorkerRequest} {answer : request.Answer} {l : Ledger}

theorem Serves.possible (h : s.Serves request answer s') : Possible request answer := by
  cases request with
  | claimAvailable =>
      cases answer with
      | ok jobs => exact h.1
      | error e => trivial
  | _ => trivial

/-- What an answered request does to the worker and to the ledger of its thread. -/
inductive Effect (s : PermitState) (l : Ledger) : PermitState → Ledger → Prop
  | none : Effect s l s l
  | acquires : 0 < s.jobPermits →
      Effect s l { s with jobPermits := s.jobPermits - 1 } { l with reserved := l.reserved + 1 }
  | releases (permits : ℕ) : permits ≤ l.reserved →
      Effect s l { s with jobPermits := s.jobPermits + permits }
        { l with reserved := l.reserved - permits }
  | claims (jobs : List ClaimedReceiptJob) : l.jobs = [] → l.handled = false →
      jobs.length ≤ l.reserved →
      Effect s l { s with claimed := jobs ++ s.claimed }
        { l with reserved := l.reserved - jobs.length, jobs }
  | submits (job : ClaimedReceiptJob) (rest : List ClaimedReceiptJob) : l.jobs = job :: rest →
      l.handled = false →
      Effect s l { s with queue := s.queue ++ [job] } { l with jobs := rest }
  | takes (job : ClaimedReceiptJob) : job ∈ s.queue → l.jobs = [] → l.handled = false →
      Effect s l { s with queue := s.queue.erase job } { l with jobs := [job] }
  | processes (job : ClaimedReceiptJob) (rest : List ClaimedReceiptJob) : l.jobs = job :: rest →
      l.handled = false →
      Effect s l { s with processed := job :: s.processed } { l with handled := true }
  | returns (job : ClaimedReceiptJob) (rest : List ClaimedReceiptJob) : l.jobs = job :: rest →
      l.handled = false →
      Effect s l { s with returned := job :: s.returned } { l with handled := true }
  | finishes (job : ClaimedReceiptJob) (rest : List ClaimedReceiptJob) : l.jobs = job :: rest →
      l.handled = true →
      Effect s l { s with jobPermits := s.jobPermits + 1 }
        { l with jobs := rest, handled := false }

theorem Serves.effect (h : s.Serves request answer s') (hallows : l.Allows request) :
    s.Effect l s' (l.record ⟨request, answer⟩) := by
  cases request with
  | isStopped =>
      obtain ⟨-, rfl⟩ := h
      exact .none
  | recoverExpired =>
      obtain rfl : s' = s := h
      exact .none
  | tryAcquire =>
      -- a permit is taken while one is free, and a refusal takes none
      cases answer with
      | true =>
          obtain ⟨hfree, rfl⟩ := h
          exact .acquires hfree
      | false =>
          obtain ⟨-, rfl⟩ := h
          exact .none
  | releasePermits permits =>
      obtain rfl : s' = { s with jobPermits := s.jobPermits + permits } := h
      exact .releases permits hallows.2
  | releasePermit =>
      obtain rfl : s' = { s with jobPermits := s.jobPermits + 1 } := h
      -- the permit is that of the job that was processed or returned last
      obtain ⟨job, rest, hjobs⟩ := List.exists_cons_of_ne_nil hallows.2
      obtain rfl : l.jobs.tail = rest := by rw [hjobs, List.tail_cons]
      exact .finishes job _ hjobs hallows.1
  | claimAvailable _ batchSize _ =>
      -- no more jobs are claimed than permits are held; the rest stay idle
      cases answer with
      | ok jobs =>
          obtain ⟨hle, rfl⟩ := h
          obtain rfl : l = ⟨batchSize, [], false⟩ := hallows
          exact .claims jobs rfl rfl hle
      | error e =>
          obtain rfl : s' = s := h
          exact .none
  | execute job =>
      -- a job that the executor refuses stays with the handler of the rejection
      cases answer with
      | true =>
          obtain rfl : s' = { s with queue := s.queue ++ [job] } := h
          obtain ⟨hopen, rest, hjobs⟩ := hallows
          obtain rfl : l.jobs.tail = rest := by rw [hjobs, List.tail_cons]
          exact .submits job _ hjobs hopen
      | false =>
          obtain rfl : s' = s := h
          exact .none
  | take =>
      obtain ⟨hmem, rfl⟩ := h
      obtain rfl : l = .empty := hallows
      exact .takes answer hmem rfl rfl
  | process job =>
      obtain rfl : s' = { s with processed := job :: s.processed } := h
      obtain ⟨hopen, rest, hjobs⟩ := hallows
      exact .processes job rest hjobs hopen
  | releaseClaim job =>
      obtain rfl : s' = { s with returned := job :: s.returned } := h
      obtain ⟨hopen, rest, hjobs⟩ := hallows
      exact .returns job rest hjobs hopen

variable {l' : Ledger}

/-- A request moves permits between the semaphore, the thread and the executor. -/
theorem Effect.permits (h : s.Effect l s' l') :
    s'.jobPermits + s'.queue.length + (l'.reserved + l'.jobs.length) =
      s.jobPermits + s.queue.length + (l.reserved + l.jobs.length) := by
  cases h with
  | none | processes | returns => rfl
  | acquires hfree =>
      dsimp only
      omega
  | releases permits hreserved =>
      dsimp only
      omega
  | claims jobs hjobs _ hle =>
      simp only [hjobs, List.length_nil]
      omega
  | submits job rest hjobs =>
      simp only [hjobs, List.length_append, List.length_cons, List.length_nil]
      omega
  | takes job hmem hjobs =>
      have hqueue : 0 < s.queue.length := List.length_pos_of_mem hmem
      simp only [hjobs, List.length_erase_of_mem hmem, List.length_cons, List.length_nil]
      omega
  | finishes job rest hjobs =>
      simp only [hjobs, List.length_cons]
      omega

/-- A request moves jobs between the threads and the executor, until they are
processed or handed back. -/
theorem Effect.jobs (h : s.Effect l s' l') (job : ClaimedReceiptJob) :
    s'.processed.count job + s'.returned.count job + s'.queue.count job +
        l'.waiting.count job + s.claimed.count job =
      s.processed.count job + s.returned.count job + s.queue.count job + l.waiting.count job +
        s'.claimed.count job := by
  cases h with
  | none | acquires | releases => rfl
  | claims jobs hjobs hopen =>
      simp only [Ledger.waiting, hjobs, hopen, List.count_append, List.count_nil,
        Bool.false_eq_true, if_false]
      omega
  | submits job rest hjobs hopen =>
      simp only [Ledger.waiting, hjobs, hopen, List.count_append, List.count_cons, List.count_nil,
        Bool.false_eq_true, if_false]
      omega
  | takes taken hmem hjobs hopen =>
      have hcount := (List.perm_cons_erase hmem).count_eq job
      rw [List.count_cons] at hcount
      simp only [Ledger.waiting, hjobs, hopen, List.count_cons, List.count_nil,
        Bool.false_eq_true, if_false]
      omega
  | processes job rest hjobs hopen | returns job rest hjobs hopen =>
      simp only [Ledger.waiting, hjobs, hopen, List.count_cons, List.tail_cons,
        Bool.false_eq_true, if_false, if_true]
      omega
  | finishes job rest hjobs hhandled =>
      simp only [Ledger.waiting, hjobs, hhandled, List.tail_cons, Bool.false_eq_true, if_false,
        if_true]

end PermitState

variable {ι : Type} [DecidableEq ι]

/-- The worker may be stopped at any moment; no thread dies. -/
def permitRules (properties : ReceiptWorkerProperties) (workerId : JString)
    (calls : ι → WorkerCall) :
    PoolRules ι PermitState WorkerRequest WorkerRequest.Answer Failure Unit where
  program i := (calls i).program properties workerId
  starts _ s s' := s' = s
  serves _ := PermitState.Serves
  dies _ _ _ := False
  others s s' := s' = s.stopPolling

abbrev PermitPool (ι : Type) : Type :=
  Pool ι PermitState WorkerRequest WorkerRequest.Answer Failure Unit

abbrev PermitRun (properties : ReceiptWorkerProperties) (workerId : JString)
    (calls : ι → WorkerCall) (pool : PermitPool ι) : Prop :=
  Pool.Run (permitRules properties workerId calls) (.start properties) pool

variable {properties : ReceiptWorkerProperties} {workerId : JString} {calls : ι → WorkerCall}
variable {pool : PermitPool ι} {i : ι}

/-- A thread requests only what its ledger allows. -/
theorem PermitRun.allowed (h : PermitRun properties workerId calls pool)
    {past : WorkerTranscript} {request : WorkerRequest} {next : request.Answer → WorkerProgram Unit}
    (hthread : pool.threads i = some ⟨past, some (.call request next)⟩) :
    (ledger past).Allows request :=
  Pool.Run.allowed h (fun _ _ _ _ _ hserves => PermitState.Serves.possible hserves)
    (along_program properties workerId (calls i)) hthread

/-- A thread ends with nothing. -/
theorem PermitRun.ends (h : PermitRun properties workerId calls pool)
    {outcome : Except Failure Unit} (hended : pool.Ended i outcome) :
    ledger (pool.past i) = .empty :=
  Pool.Run.outcome h (fun _ _ _ _ _ hserves => PermitState.Serves.possible hserves)
    (along_program properties workerId (calls i)) hended

end ReceiptExtractionWorker

end ReceiptReview
