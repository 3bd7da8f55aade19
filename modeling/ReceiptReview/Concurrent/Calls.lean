import ReceiptReview.Concurrent.UploadPaths
import ReceiptReview.Program.Pool
import ReceiptReview.System.Operation

/-!
# Any number of uploads beside each other

Each call has a thread of its own, the run of `upload` with its arguments.  Its
queries read the database as it is, its transactions commit like any other, and
workers and employees go on in between.  A call may fail at any request, and may
die at any moment.

The state remembers who has made each commit, and which calls hold a lock.  The
lock may work (`exclusive`), and then it is acquired only while nobody holds it, or
it may let anybody in.  A holder that dies leaves it.
-/

namespace ReceiptReview

open Java Store UploadTranscript

/-- An operation that only an upload calls. -/
def Operation.isIntake : Operation → Bool
  | createQueued .. | markDuplicate .. => true
  | _ => false

/-- The commits with the calls that have made them, the newest first, and the
holders of the locks. -/
@[ext]
structure CallsState (ι : Type) where
  log : List (Option ι × Commit)
  holders : JString → ι → Prop

namespace CallsState

variable {ι : Type}

/-- A history in which no call has made a commit. -/
def start (base : List Commit) : CallsState ι where
  log := base.map fun commit => (none, commit)
  holders _ _ := False

def trace (s : CallsState ι) : List Commit := s.log.map Prod.snd

/-- The commits of one call. -/
def own [DecidableEq ι] (s : CallsState ι) (i : ι) : List Commit :=
  (s.log.filter (·.1 = some i)).map Prod.snd

/-- A commit, made by the call `author` or by nobody of them. -/
def add (s : CallsState ι) (author : Option ι) (commit : Commit) : CallsState ι :=
  { s with log := (author, commit) :: s.log }

def acquire (s : CallsState ι) (lockKey : JString) (i : ι) : CallsState ι :=
  { s with holders := fun key j => s.holders key j ∨ key = lockKey ∧ j = i }

def release (s : CallsState ι) (lockKey : JString) (i : ι) : CallsState ι :=
  { s with holders := fun key j => s.holders key j ∧ ¬ (key = lockKey ∧ j = i) }

/-- The call holds no lock any more. -/
def leave (s : CallsState ι) (i : ι) : CallsState ι :=
  { s with holders := fun key j => s.holders key j ∧ j ≠ i }

@[simp] theorem trace_add (s : CallsState ι) (author : Option ι) (commit : Commit) :
    (s.add author commit).trace = commit :: s.trace := rfl

@[simp] theorem trace_acquire (s : CallsState ι) (lockKey : JString) (i : ι) :
    (s.acquire lockKey i).trace = s.trace := rfl

@[simp] theorem trace_release (s : CallsState ι) (lockKey : JString) (i : ι) :
    (s.release lockKey i).trace = s.trace := rfl

@[simp] theorem trace_leave (s : CallsState ι) (i : ι) : (s.leave i).trace = s.trace := rfl

theorem trace_of_log {s s' : CallsState ι} (h : s'.log = s.log) : s'.trace = s.trace :=
  congrArg (List.map Prod.snd) h

theorem own_of_log [DecidableEq ι] {s s' : CallsState ι} (h : s'.log = s.log) (i : ι) :
    s'.own i = s.own i := by
  rw [own, h, own]

@[simp] theorem own_add_self [DecidableEq ι] (s : CallsState ι) (i : ι) (commit : Commit) :
    (s.add (some i) commit).own i = commit :: s.own i := by
  simp [own, add]

theorem own_add_of_ne [DecidableEq ι] (s : CallsState ι) {i : ι} {author : Option ι}
    (h : author ≠ some i) (commit : Commit) : (s.add author commit).own i = s.own i := by
  simp [own, add, h]

theorem mem_own [DecidableEq ι] {s : CallsState ι} {i : ι} {commit : Commit} :
    commit ∈ s.own i ↔ (some i, commit) ∈ s.log := by
  rw [own, List.mem_map]
  constructor
  · intro hentry
    obtain ⟨⟨author, commit⟩, hmem, rfl⟩ := hentry
    obtain ⟨hlog, hauthor⟩ := List.mem_filter.mp hmem
    simp only [decide_eq_true_eq] at hauthor
    rwa [← hauthor]
  · intro hlog
    exact ⟨(some i, commit), List.mem_filter.mpr ⟨hlog, by simp⟩, rfl⟩

@[simp] theorem own_start [DecidableEq ι] (base : List Commit) (i : ι) :
    (start base : CallsState ι).own i = [] := by
  simp [own, start]

@[simp] theorem trace_start (base : List Commit) : (start base : CallsState ι).trace = base := by
  simp [trace, start]

end CallsState

/-- The commit is the transaction of this exchange. -/
def Commit.MadeBy (commit : Commit) : UploadExchange → Prop
  | ⟨.createQueued receipt imageStorageKey idempotencyKey auditEvents, .ok (created, job)⟩ =>
      (∃ receiptId jobId createdAt recordedAt, commit.operation = .createQueued receipt
        imageStorageKey idempotencyKey auditEvents receiptId jobId createdAt recordedAt) ∧
        commit.reply = .created created job
  | ⟨.markDuplicate receiptId, .ok receipt⟩ =>
      (∃ now today, commit.operation = .markDuplicate receiptId now today) ∧
        commit.reply = .receipt receipt
  | _ => False

variable (P : Platform) (employees : Table Employee) {ι : Type}

/-- The answer of a query is true of the database. -/
def UploadTranscript.TrueOf (db : Database) : UploadExchange → Prop
  | ⟨.findByCompanyIdAndIdempotencyKey companyId idempotencyKey, .ok found⟩ =>
      found = db.findByCompanyIdAndIdempotencyKey P companyId idempotencyKey
  | ⟨.findByCompanyIdAndImageSha256 companyId imageSha256, .ok found⟩ =>
      found = db.findByCompanyIdAndImageSha256 P companyId imageSha256
  | ⟨.findReceiptById id, .ok found⟩ => found = db.findReceipt id
  | ⟨.findJobByReceiptId receiptId, .ok found⟩ => found = db.findJobByReceiptId receiptId
  | _ => True

namespace CallsState

/-- The call commits the transaction of an exchange. -/
def Commits (i : ι) (s : CallsState ι) (exchange : UploadExchange) (s' : CallsState ι) : Prop :=
  ∃ commit : Commit, commit.MadeBy exchange ∧
    Extends P employees s.trace commit.operation commit.reply (commit :: s.trace) ∧
    s' = s.add (some i) commit

/-- A request of a call is answered. -/
def Serves (exclusive : Prop) (i : ι) (s : CallsState ι) (request : UploadRequest)
    (answer : request.Answer) (s' : CallsState ι) : Prop :=
  request.Possible answer ∧ TrueOf P (current employees s.trace) ⟨request, answer⟩ ∧
    match request, answer with
    | .tryLock lockKey, .ok .acquired =>
        (exclusive → ∀ j, ¬ s.holders lockKey j) ∧ s' = s.acquire lockKey i
    | .unlock lockKey, _ => s' = s.release lockKey i
    | .createQueued receipt imageStorageKey idempotencyKey auditEvents, .ok pair =>
        Commits P employees i s
          ⟨.createQueued receipt imageStorageKey idempotencyKey auditEvents, .ok pair⟩ s'
    | .markDuplicate receiptId, .ok receipt =>
        Commits P employees i s ⟨.markDuplicate receiptId, .ok receipt⟩ s'
    | _, _ => s' = s

/-- A worker or an employee commits an operation. -/
def Others (s s' : CallsState ι) : Prop :=
  ∃ commit : Commit, commit.operation.isIntake = false ∧
    commit.operation.Permitted P employees ∧
    Extends P employees s.trace commit.operation commit.reply (commit :: s.trace) ∧
    s' = s.add none commit

end CallsState

/-- The threads of the calls. -/
def callsRules (exclusive : Prop) (calls : ι → UploadCall) :
    PoolRules ι (CallsState ι) UploadRequest UploadRequest.Answer Failure UploadResult where
  program i := ReceiptUploadService.upload P (calls i)
  starts _ s s' := s' = s
  serves i s request answer s' := CallsState.Serves P employees exclusive i s request answer s'
  dies i s s' := s' = s.leave i
  others := CallsState.Others P employees

abbrev CallsPool (ι : Type) : Type :=
  Pool ι (CallsState ι) UploadRequest UploadRequest.Answer Failure UploadResult

/-- The pools that are reached after the history `base`. -/
def CallsRun [DecidableEq ι] (exclusive : Prop) (calls : ι → UploadCall) (base : List Commit)
    (pool : CallsPool ι) : Prop :=
  Pool.Run (callsRules P employees exclusive calls) (.start base) pool

variable {P employees} {exclusive : Prop} {calls : ι → UploadCall} {base trace : List Commit}
variable {s s' : CallsState ι}

/-! ## Histories that go on -/

/-- The trace is reached from `base` by commits of permitted operations. -/
inductive Continues (P : Platform) (employees : Table Employee) (base : List Commit) :
    List Commit → Prop
  | refl : Continues P employees base base
  | commit {trace : List Commit} {commit : Commit} : Continues P employees base trace →
      commit.operation.Permitted P employees →
      Extends P employees trace commit.operation commit.reply (commit :: trace) →
      Continues P employees base (commit :: trace)

theorem Continues.run (h : Continues P employees base trace) (hbase : Run P employees base) :
    Run P employees trace := by
  induction h with
  | refl => exact hbase
  | commit _ hpermitted hextends ih => exact hextends.run ih hpermitted

/-! ## What a step of the calls does -/

/-- The effect of a step on the commits. -/
inductive CallsStep (P : Platform) (employees : Table Employee) (calls : ι → UploadCall)
    (pool pool' : CallsPool ι) : Prop
  | quiet : pool'.shared.log = pool.shared.log → CallsStep P employees calls pool pool'
  | other (commit : Commit) : pool'.shared.log = (none, commit) :: pool.shared.log →
      commit.operation.isIntake = false → commit.operation.Permitted P employees →
      Extends P employees pool.shared.trace commit.operation commit.reply
        (commit :: pool.shared.trace) → CallsStep P employees calls pool pool'
  | served (i : ι) (past : UploadTranscript) (rest : UploadProgram UploadResult)
      (exchange : UploadExchange) (commit : Commit) :
      pool'.shared.log = (some i, commit) :: pool.shared.log →
      pool.threads i = some ⟨past, some rest⟩ → UploadAllows P (calls i) past exchange.request →
      commit.MadeBy exchange →
      Extends P employees pool.shared.trace commit.operation commit.reply
        (commit :: pool.shared.trace) → CallsStep P employees calls pool pool'

theorem possible_of_serves (i : ι) (s : CallsState ι) (request : UploadRequest)
    (answer : request.Answer) (s' : CallsState ι)
    (h : (callsRules P employees exclusive calls).serves i s request answer s') :
    request.Possible answer := h.1

/-- A served request commits a transaction of its own, or leaves the commits as they are. -/
theorem CallsState.Serves.log_cases {i : ι} {request : UploadRequest} {answer : request.Answer}
    (h : CallsState.Serves P employees exclusive i s request answer s') :
    s'.log = s.log ∧ commits ⟨request, answer⟩ = false ∨
      CallsState.Commits P employees i s ⟨request, answer⟩ s' := by
  obtain ⟨-, -, h⟩ := h
  cases request with
  | createQueued => cases answer with
    | error e => exact .inl ⟨congrArg _ h, rfl⟩
    | ok pair => exact .inr h
  | markDuplicate => cases answer with
    | error e => exact .inl ⟨congrArg _ h, rfl⟩
    | ok receipt => exact .inr h
  | tryLock => cases answer with
    | error e => exact .inl ⟨congrArg _ h, rfl⟩
    | ok outcome => cases outcome with
      | acquired => exact .inl ⟨by rw [show s' = s.acquire _ i from h.2]; rfl, rfl⟩
      | timedOut | interrupted => exact .inl ⟨congrArg _ h, rfl⟩
  | unlock => exact .inl ⟨by rw [show s' = s.release _ i from h]; rfl, rfl⟩
  | _ => exact .inl ⟨congrArg CallsState.log h, rfl⟩

theorem trace_suffix_of_moves
    (h : (callsRules P employees exclusive calls).Moves s s') : s.trace <:+ s'.trace := by
  rcases h with ⟨commit, -, -, -, rfl⟩ | ⟨i, hstarts | hdies | ⟨request, answer, hserves⟩⟩
  · exact List.suffix_cons _ _
  · exact (congrArg CallsState.trace hstarts).symm ▸ List.suffix_rfl
  · exact (congrArg CallsState.trace hdies).symm ▸ List.suffix_rfl
  · rcases CallsState.Serves.log_cases hserves with ⟨hlog, -⟩ | ⟨commit, -, -, rfl⟩
    · exact (CallsState.trace_of_log hlog).symm ▸ List.suffix_rfl
    · exact List.suffix_cons _ _

variable [DecidableEq ι] {pool pool' : CallsPool ι}

/-- A call requests only what its transcript allows. -/
theorem CallsRun.allowed (h : CallsRun P employees exclusive calls base pool) {i : ι}
    {past : UploadTranscript} {request : UploadRequest}
    {next : request.Answer → UploadProgram UploadResult}
    (hthread : pool.threads i = some ⟨past, some (.call request next)⟩) :
    UploadAllows P (calls i) past request :=
  Pool.Run.allowed h possible_of_serves along_upload hthread

/-- A call ends only as its transcript tells. -/
theorem CallsRun.ends (h : CallsRun P employees exclusive calls base pool) {i : ι}
    {past : UploadTranscript} {outcome : Except Failure UploadResult}
    (hthread : pool.threads i = some ⟨past, some (.done outcome)⟩) :
    UploadEnds P (calls i) outcome past :=
  Pool.Run.outcome h possible_of_serves along_upload hthread

theorem CallsRun.step_cases (h : CallsRun P employees exclusive calls base pool)
    (hstep : Pool.Step (callsRules P employees exclusive calls) pool pool') :
    CallsStep P employees calls pool pool' := by
  cases hstep with
  | others hothers =>
      obtain ⟨commit, hintake, hpermitted, hextends, rfl⟩ := hothers
      exact .other commit rfl hintake hpermitted hextends
  | start _ hstarts => exact .quiet (congrArg CallsState.log hstarts)
  | @die i _ _ s' _ hdies => exact .quiet (by rw [Pool.shared_update, show s' = _ from hdies]; rfl)
  | serve hthread hserves =>
      rcases CallsState.Serves.log_cases hserves with ⟨hsame, -⟩ | ⟨commit, hmade, hextends, rfl⟩
      · exact .quiet hsame
      · exact .served _ _ _ _ commit rfl hthread (h.allowed hthread) hmade hextends

/-- A step adds at most one commit to the log. -/
theorem CallsRun.log_cases (h : CallsRun P employees exclusive calls base pool)
    (hstep : Pool.Step (callsRules P employees exclusive calls) pool pool') :
    pool'.shared.log = pool.shared.log ∨ ∃ entry, pool'.shared.log = entry :: pool.shared.log := by
  cases h.step_cases hstep with
  | quiet hsame => exact .inl hsame
  | other commit hlog => exact .inr ⟨_, hlog⟩
  | served i _ _ _ commit hlog => exact .inr ⟨_, hlog⟩

/-! ## What holds of every reachable pool -/

/-- A transaction of a call stores a receipt or marks one. -/
theorem Commit.MadeBy.cases {exchange : UploadExchange} {commit : Commit}
    (h : commit.MadeBy exchange) :
    (∃ receipt imageStorageKey idempotencyKey auditEvents created job, exchange =
      ⟨.createQueued receipt imageStorageKey idempotencyKey auditEvents, .ok (created, job)⟩) ∨
    ∃ receiptId receipt, exchange = ⟨.markDuplicate receiptId, .ok receipt⟩ := by
  unfold Commit.MadeBy at h
  split at h
  · exact .inl ⟨_, _, _, _, _, _, rfl⟩
  · exact .inr ⟨_, _, rfl⟩
  · exact h.elim

theorem permitted_of_madeBy {call : UploadCall} {past : UploadTranscript}
    {exchange : UploadExchange} {commit : Commit} (hmade : commit.MadeBy exchange)
    (hallows : UploadAllows P call past exchange.request) :
    commit.operation.Permitted P employees := by
  rcases hmade.cases with ⟨_, _, _, _, _, _, rfl⟩ | ⟨_, _, rfl⟩
  · obtain ⟨⟨_, _, _, _, hoperation⟩, -⟩ := hmade
    obtain ⟨-, -, contentType, now, rfl, rfl, rfl⟩ := hallows
    rw [hoperation]
    exact ⟨call, contentType, now, rfl, rfl, rfl⟩
  · obtain ⟨⟨_, _, hoperation⟩, -⟩ := hmade
    rw [hoperation]
    trivial

theorem commits_of_madeBy {exchange : UploadExchange} {commit : Commit}
    (h : commit.MadeBy exchange) : commits exchange = true := by
  rcases h.cases with ⟨_, _, _, _, _, _, rfl⟩ | ⟨_, _, rfl⟩
  · rfl
  · rfl

theorem CallsRun.continues (h : CallsRun P employees exclusive calls base pool) :
    Continues P employees base pool.shared.trace := by
  induction h with
  | initial =>
      rw [Pool.initial, CallsState.trace_start]
      exact .refl
  | step hrun hstep ih =>
      cases CallsRun.step_cases hrun hstep with
      | quiet hsame => rwa [CallsState.trace, hsame]
      | other commit hlog _ hpermitted hextends =>
          rw [CallsState.trace, hlog]
          exact .commit ih hpermitted hextends
      | served i past rest exchange commit hlog _ hallows hmade hextends =>
          rw [CallsState.trace, hlog]
          exact .commit ih (permitted_of_madeBy hmade hallows) hextends

/-- The commits of a call are the transactions of its transcript. -/
theorem CallsRun.own_madeBy (h : CallsRun P employees exclusive calls base pool) (i : ι) :
    List.Forall₂ Commit.MadeBy (pool.shared.own i) (committed (pool.past i)) := by
  induction h with
  | initial =>
      rw [Pool.initial, CallsState.own_start]
      exact .nil
  | @step pool pool' hrun hstep ih =>
      rcases hstep.past_cases with
        ⟨hsame, hothers | ⟨j, hstarts | hdies⟩⟩ | ⟨j, r, answer, next, -, hserves, hserved, hkept⟩
      · obtain ⟨commit, -, -, -, hshared⟩ := hothers
        rw [hsame, hshared, CallsState.own_add_of_ne _ (by simp)]
        exact ih
      · rw [hsame, CallsState.own_of_log (congrArg CallsState.log hstarts)]
        exact ih
      · rw [hsame, CallsState.own_of_log (by rw [show pool'.shared = _ from hdies])]
        exact ih
      · rcases CallsState.Serves.log_cases hserves with ⟨hlog, hcommits⟩ |
          ⟨commit, hmade, -, hshared⟩
        · rw [CallsState.own_of_log hlog]
          by_cases hij : i = j
          · subst hij
            rw [hserved, committed_cons_of_not hcommits]
            exact ih
          · rw [hkept i hij]
            exact ih
        · rw [hshared]
          by_cases hij : i = j
          · subst hij
            rw [hserved, committed_cons_of_commits (commits_of_madeBy hmade),
              CallsState.own_add_self]
            exact .cons hmade ih
          · rw [hkept i hij, CallsState.own_add_of_ne _ (by simpa using Ne.symm hij)]
            exact ih

/-- What holds of every transaction that a call commits holds of its commits. -/
theorem CallsRun.forall_own {holds : ι → Commit → Prop}
    (h : CallsRun P employees exclusive calls base pool)
    (hserved : ∀ (pool : CallsPool ι) i past rest exchange (commit : Commit),
      CallsRun P employees exclusive calls base pool → pool.threads i = some ⟨past, some rest⟩ →
      UploadAllows P (calls i) past exchange.request → commit.MadeBy exchange →
      Extends P employees pool.shared.trace commit.operation commit.reply
        (commit :: pool.shared.trace) → holds i commit) (i : ι) :
    ∀ commit ∈ pool.shared.own i, holds i commit := by
  intro commit hown
  obtain ⟨newer, older, hlog⟩ := List.append_of_mem (CallsState.mem_own.mp hown)
  have hnew : ¬ (some i, commit) :: older <:+ (CallsState.start base : CallsState ι).log := by
    intro hstart
    obtain ⟨other, -, hnone⟩ := List.mem_map.mp (hstart.subset List.mem_cons_self)
    exact absurd (Prod.mk.inj hnone).1 (by simp)
  obtain ⟨before, after, hbefore, hstep, -, rfl, hadded⟩ :=
    h.added (fun _ _ => CallsRun.log_cases) ⟨newer, hlog.symm⟩ hnew
  cases CallsRun.step_cases hbefore hstep with
  | quiet hsame => exact absurd (hsame.symm.trans hadded) (List.cons_ne_self _ _).symm
  | other _ hother => exact absurd (hother.symm.trans hadded) (by simp)
  | served j past rest exchange _ hadds hthread hallows hmade hextends =>
      obtain ⟨heq, -⟩ := List.cons.inj (hadds.symm.trans hadded)
      obtain ⟨rfl, rfl⟩ : j = i ∧ _ = commit := by simpa using heq
      exact hserved before j past rest exchange _ hbefore hthread hallows hmade hextends

/-- The answer was true at some moment since `base`. -/
def TrueSince (P : Platform) (employees : Table Employee) (base trace : List Commit)
    (exchange : UploadExchange) : Prop :=
  ∃ moment, base <:+ moment ∧ moment <:+ trace ∧ TrueOf P (current employees moment) exchange

/-- The answers were true one after the other since `base`. -/
def TrueInTurn (P : Platform) (employees : Table Employee) (base : List Commit) :
    UploadTranscript → List Commit → Prop
  | [], trace => base <:+ trace
  | exchange :: past, trace => ∃ moment, moment <:+ trace ∧
      TrueOf P (current employees moment) exchange ∧ TrueInTurn P employees base past moment

theorem TrueInTurn.mono {past : UploadTranscript} {later : List Commit}
    (h : TrueInTurn P employees base past trace) (hlater : trace <:+ later) :
    TrueInTurn P employees base past later := by
  cases past with
  | nil => exact List.IsSuffix.trans h hlater
  | cons exchange past =>
      obtain ⟨moment, hupto, hrest⟩ := h
      exact ⟨moment, hupto.trans hlater, hrest⟩

theorem TrueInTurn.since {past : UploadTranscript} (h : TrueInTurn P employees base past trace) :
    base <:+ trace := by
  induction past generalizing trace with
  | nil => exact h
  | cons exchange past ih =>
      obtain ⟨moment, hupto, -, hrest⟩ := h
      exact (ih hrest).trans hupto

/-- An answer of a transcript, with the part of the transcript before it. -/
theorem TrueInTurn.at_exchange {newer older : UploadTranscript} {exchange : UploadExchange}
    (h : TrueInTurn P employees base (newer ++ exchange :: older) trace) :
    ∃ moment, moment <:+ trace ∧ TrueOf P (current employees moment) exchange ∧
      TrueInTurn P employees base older moment := by
  induction newer generalizing trace with
  | nil => exact h
  | cons _ newer ih =>
      obtain ⟨later, hupto, -, hrest⟩ := h
      obtain ⟨moment, hmoment, hanswer⟩ := ih hrest
      exact ⟨moment, hmoment.trans hupto, hanswer⟩

theorem TrueInTurn.true_since {past : UploadTranscript} {exchange : UploadExchange}
    (h : TrueInTurn P employees base past trace) (hmem : exchange ∈ past) :
    TrueSince P employees base trace exchange := by
  obtain ⟨newer, older, rfl⟩ := List.append_of_mem hmem
  obtain ⟨moment, hupto, htrue, hrest⟩ := h.at_exchange
  exact ⟨moment, hrest.since, hupto, htrue⟩

/-- A step keeps the answers of the newer part of a transcript true. -/
theorem TrueInTurn.step {newer older : UploadTranscript} {i : ι}
    (h : TrueInTurn P employees base newer pool.shared.trace)
    (hstep : Pool.Step (callsRules P employees exclusive calls) pool pool')
    (hpast : pool.past i = newer ++ older) :
    ∃ newer', pool'.past i = newer' ++ older ∧
      TrueInTurn P employees base newer' pool'.shared.trace := by
  have hlater := trace_suffix_of_moves hstep.moves
  rcases hstep.past_cases with ⟨hsame, -⟩ | ⟨j, r, answer, -, -, hserves, hserved, hothers⟩
  · exact ⟨newer, (hsame i).trans hpast, h.mono hlater⟩
  · by_cases hij : i = j
    · subst hij
      exact ⟨⟨r, answer⟩ :: newer, by rw [hserved, hpast, List.cons_append], _, hlater, hserves.2.1,
        h⟩
    · exact ⟨newer, (hothers i hij).trans hpast, h.mono hlater⟩

/-- The answers of the queries of a call were true when they were given. -/
theorem CallsRun.true_in_turn (h : CallsRun P employees exclusive calls base pool) (i : ι) :
    TrueInTurn P employees base (pool.past i) pool.shared.trace := by
  induction h with
  | initial =>
      rw [Pool.initial, CallsState.trace_start]
      exact List.suffix_rfl
  | step _ hstep ih =>
      obtain ⟨newer, hpast, htrue⟩ := ih.step hstep (List.append_nil _).symm
      rwa [hpast, List.append_nil]

/-- What a call has been told since a moment was true after it. -/
theorem true_in_turn_later
    (hlater : Relation.ReflTransGen (Pool.Step (callsRules P employees exclusive calls)) pool pool')
    (i : ι) : ∃ newer, pool'.past i = newer ++ pool.past i ∧
      TrueInTurn P employees pool.shared.trace newer pool'.shared.trace := by
  induction hlater with
  | refl => exact ⟨[], rfl, List.suffix_rfl⟩
  | tail _ hstep ih =>
      obtain ⟨newer, hpast, htrue⟩ := ih
      exact htrue.step hstep hpast

theorem CallsRun.true_since (h : CallsRun P employees exclusive calls base pool) (i : ι) :
    ∀ exchange ∈ pool.past i, TrueSince P employees base pool.shared.trace exchange :=
  fun _ hmem => (h.true_in_turn i).true_since hmem

end ReceiptReview
