import ReceiptReview.Concurrent.Locks
import ReceiptReview.Concurrent.Schedule
import ReceiptReview.Lifecycle.Creations
import ReceiptReview.Lifecycle.Marks

/-!
# After the lock was refused

An upload that does not get the lock looks for the receipt of its image once more,
to return what another upload has stored in the meantime.  The lookup is that of the
fast path, which leaves out a receipt whose duplicate has not been handled.  So the
upload converges on a receipt that is flagged as a duplicate, and answers with a
conflict where the receipt was stored once and is not flagged yet (`converges_iff`).
-/

namespace ReceiptReview

open Java Store Program ReceiptCase ReceiptUploadService UploadTranscript

variable {P : Platform} {employees : Table Employee} {trace earlier : List Commit}
variable {call : UploadCall} {past : UploadTranscript}

/-! ## What the upload does then -/

/-- The lookup after a conflict. -/
def converge (P : Platform) (call : UploadCall) (message : String) :
    UploadProgram UploadResult := do
  let found ← findProcessedDuplicate call.companyId (P.sha256 call.bytes) call.ownerId
  required found (.receiptConflict message)

def UploadRequest.isTryLock : UploadRequest → Bool
  | tryLock _ => true
  | _ => false

abbrev LockFree {α : Type} (p : UploadProgram α) : Prop :=
  p.Requests fun request => request.isTryLock = false

/-- After the lock was refused, the upload converges. -/
def AfterLock (P : Platform) (call : UploadCall) :
    (request : UploadRequest) → (request.Answer → UploadProgram UploadResult) → Prop
  | .tryLock _, next => ∀ outcome, outcome ≠ .acquired →
      ∃ message, next (.ok outcome) = converge P call message
  | _, _ => True

theorem afterLock_of_lockFree (request : UploadRequest)
    (next : request.Answer → UploadProgram UploadResult) (h : request.isTryLock = false) :
    AfterLock P call request next := by
  cases request with
  | tryLock => exact absurd h (by simp [UploadRequest.isTryLock])
  | _ => trivial

theorem lockFree_of_looksUp {α : Type} {p : UploadProgram α} (h : LooksUp p) : LockFree p :=
  h.proceeds fun request _ hstored => by
    cases request with
    | tryLock => exact hstored.elim
    | _ => rfl

theorem looksUp_converge (message : String) : LooksUp (converge P call message) :=
  requests_bind (looksUp_findProcessedDuplicate _ _ _) fun _ => trivial

theorem lockFree_acceptWhileLocked (companyId : JString)
    (idempotencyKey fileName contentType : Option JString) (bytes : List UInt8)
    (imageSha256 : JString) (ownerId : Option Long) :
    LockFree (acceptWhileLocked companyId idempotencyKey fileName contentType bytes imageSha256
      ownerId) := by
  refine requests_bind (lockFree_of_looksUp (looksUp_findIdempotentReplay _ _ _)) fun replay => ?_
  cases replay with
  | some replay => trivial
  | none =>
      refine requests_ask rfl fun found => ?_
      cases found with
      | some sameImage => exact lockFree_of_looksUp (looksUp_acceptDuplicate _ _)
      | none =>
          refine requests_ask rfl fun now => requests_ask rfl fun storageKey => ?_
          refine requests_tryCatch (requests_ask rfl fun _ => trivial) fun exception => ?_
          cases exception with
          | dataIntegrityViolation =>
              exact lockFree_of_looksUp (looksUp_resolveConstraintConflict _ _ _ _)
          | _ => trivial

/-- An exception under the lock is thrown on, or the upload converges. -/
theorem lockFree_handler (exception : Failure) :
    LockFree (match exception with
      | .receiptConflict message => do
          let found ← findProcessedDuplicate call.companyId (P.sha256 call.bytes) call.ownerId
          required found (.receiptConflict message)
      | exception => Program.throw exception : UploadProgram UploadResult) := by
  cases exception with
  | receiptConflict message => exact lockFree_of_looksUp (looksUp_converge message)
  | _ => trivial

/-- The lock is asked for once, and an upload that is refused it converges. -/
theorem proceeds_upload (P : Platform) (call : UploadCall) :
    (upload P call).Proceeds (AfterLock P call) := by
  unfold upload
  split
  · trivial
  · cases ReceiptImageFormat.detect call.bytes with
    | error e => trivial
    | ok format =>
        show (findIdempotentReplay _ _ _ >>= _).Proceeds _
        refine proceeds_bind (lockFree_of_looksUp (looksUp_findIdempotentReplay _ _ _))
          afterLock_of_lockFree fun replay => ?_
        cases replay with
        | some replay => trivial
        | none =>
            show (findProcessedDuplicate _ _ _ >>= _).Proceeds _
            refine proceeds_bind (lockFree_of_looksUp (looksUp_findProcessedDuplicate _ _ _))
              afterLock_of_lockFree fun processedDuplicate => ?_
            cases processedDuplicate with
            | some result => trivial
            | none =>
                -- a refused lock leads to the lookup; an acquired one is not refused
                refine ⟨fun outcome hrefused => ?_, fun answer => ?_⟩
                · cases outcome with
                  | acquired => exact absurd rfl hrefused
                  | timedOut | interrupted => exact ⟨_, rfl⟩
                · apply Requests.proceeds _ afterLock_of_lockFree
                  cases answer with
                  | error e => exact lockFree_handler e
                  | ok outcome =>
                      cases outcome with
                      | timedOut | interrupted => exact lockFree_of_looksUp (looksUp_converge _)
                      | acquired =>
                          refine requests_tryCatch (requests_tryFinally ?_ ?_) lockFree_handler
                          · exact lockFree_acceptWhileLocked _ _ _ _ _ _ _
                          · exact ⟨rfl, fun _ => trivial⟩

/-! ## How the lookup ends -/

/-- What the lookup has been told, and how it ends. -/
inductive Recovers (P : Platform) (call : UploadCall) :
    UploadTranscript → Except Failure UploadResult → Prop
  | failed {told : UploadTranscript} {request : UploadRequest} {e : Failure} :
      Recovers P call (⟨request, .error e⟩ :: told) (.error e)
  | unknown {message : String} :
      Recovers P call [⟨.findByCompanyIdAndImageSha256 call.companyId (P.sha256 call.bytes),
        .ok none⟩] (.error (.receiptConflict message))
  | foreign {receipt : Receipt} {message : String} : receipt.ownerEmployeeId ≠ call.ownerId →
      Recovers P call [⟨.findByCompanyIdAndImageSha256 call.companyId (P.sha256 call.bytes),
        .ok (some receipt)⟩] (.error (.receiptConflict message))
  | jobless {receipt : Receipt} {message : String} :
      Recovers P call [⟨.findJobByReceiptId receipt.id, .ok none⟩,
        ⟨.findByCompanyIdAndImageSha256 call.companyId (P.sha256 call.bytes), .ok (some receipt)⟩]
        (.error (.receiptConflict message))
  | unflagged {receipt : Receipt} {job : ReceiptExtractionJob} {message : String} :
      job.duplicateDetected = false →
      Recovers P call [⟨.findJobByReceiptId receipt.id, .ok (some job)⟩,
        ⟨.findByCompanyIdAndImageSha256 call.companyId (P.sha256 call.bytes), .ok (some receipt)⟩]
        (.error (.receiptConflict message))
  | processed {receipt : Receipt} {job : ReceiptExtractionJob} :
      Recovers P call [⟨.findJobByReceiptId receipt.id, .ok (some job)⟩,
        ⟨.findByCompanyIdAndImageSha256 call.companyId (P.sha256 call.bytes), .ok (some receipt)⟩]
        (.ok { receipt, job, created := false, idempotentReplay := false })

theorem along_converge (message : String) :
    uploadAlong P call (converge P call message)
      (fun outcome past' => ∃ told, past' = told ++ past ∧ Recovers P call told outcome) past := by
  unfold converge
  rw [uploadAlong, Program.along_bind]
  refine along_ask_bind ⟨rfl, rfl⟩ (fun found => ?_) fun e _ => ⟨[_], rfl, .failed⟩
  cases found with
  | none => exact ⟨[_], rfl, .unknown⟩
  | some receipt =>
      show uploadAlong P call (_ >>= _) _ _
      rw [uploadAlong, Program.along_bind]
      refine along_ensureOwner (fun _ => ?_) fun hother message => ⟨[_], rfl, .foreign hother⟩
      refine along_ask_bind trivial (fun found => ?_) fun e _ => ⟨[_, _], rfl, .failed⟩
      cases found with
      | none => exact ⟨[_, _], rfl, .jobless⟩
      | some job =>
          cases hflag : job.duplicateDetected with
          | true =>
              simp only [hflag, if_true]
              exact ⟨[_, _], rfl, .processed⟩
          | false =>
              simp only [hflag]
              exact ⟨[_, _], rfl, .unflagged hflag⟩

/-- The lookup of a receipt of the caller, whose job is found. -/
theorem converge_eq {receipt : Receipt} (howner : receipt.ownerEmployeeId = call.ownerId)
    (message : String) :
    ∃ next, converge P call message =
        .call (.findByCompanyIdAndImageSha256 call.companyId (P.sha256 call.bytes)) next ∧
      ∃ next', next (.ok (some receipt)) = .call (.findJobByReceiptId receipt.id) next' ∧
        ∀ job : ReceiptExtractionJob, next' (.ok (some job)) =
          .done (if job.duplicateDetected = true then
              .ok { receipt, job, created := false, idempotentReplay := false }
            else .error (.receiptConflict message)) := by
  have hensure : ensureOwner receipt call.ownerId = pure () := if_neg (not_not.mpr howner)
  refine ⟨_, rfl, ?_⟩
  show ∃ next', Program.bind (ensureOwner receipt call.ownerId >>= _) _ = _ ∧ _
  rw [hensure]
  refine ⟨_, rfl, fun job => ?_⟩
  show Program.bind (if job.duplicateDetected = true then _ else _) _ = _
  split <;> rfl

/-! ## The stored receipt -/

/-- The receipt of an image is found at every later moment. -/
theorem Run.found_later (h : Run P employees trace) (hearlier : earlier <:+ trace)
    {companyId imageSha256 : JString} {receipt : Receipt}
    (hfound : (current employees earlier).findByCompanyIdAndImageSha256 P companyId imageSha256 =
      some receipt) :
    ∃ receipt', (current employees trace).findByCompanyIdAndImageSha256 P companyId imageSha256 =
      some receipt' ∧ SameReceipt receipt receipt' := by
  obtain ⟨hstored, hcompany, himage⟩ := findByCompanyIdAndImageSha256_eq_some hfound
  obtain ⟨row, hrow, rfl⟩ := Database.findReceipt_eq_some.mp hstored
  obtain ⟨row', hrow', hsame⟩ := h.stored_later hearlier hrow
  rw [← hsame.of_reread.companyId] at hcompany
  rw [← hsame.of_reread.imageSha256] at himage
  cases hlater : (current employees trace).findByCompanyIdAndImageSha256 P companyId
      imageSha256 with
  | none =>
      exact absurd ⟨hcompany, himage⟩
        (findByCompanyIdAndImageSha256_eq_none.mp hlater _ row' hrow')
  | some other =>
      obtain ⟨hother, hcompany', himage'⟩ := findByCompanyIdAndImageSha256_eq_some hlater
      obtain ⟨row'', hrow'', rfl⟩ := Database.findReceipt_eq_some.mp hother
      have hid : row.reread.id = row''.reread.id := h.eq_of_sameImage hrow' hrow''
        (textEq_trans hcompany (textEq_symm hcompany')) (textEq_trans himage (textEq_symm himage'))
      rw [hid, hrow''] at hrow'
      cases hrow'
      exact ⟨row'.reread, rfl, hsame.id, hsame.ownerEmployeeId, hsame.companyId,
        hsame.imageSha256⟩

/-- The flag of its job is set at every later moment. -/
theorem Run.flagged_later (h : Run P employees trace) (hearlier : earlier <:+ trace) {id : Long}
    {job : ReceiptExtractionJob}
    (hjob : (current employees earlier).findJobByReceiptId id = some job)
    (hflag : job.duplicateDetected = true) :
    ∃ job', (current employees trace).findJobByReceiptId id = some job' ∧
      job'.duplicateDetected = true := by
  obtain ⟨hstored, rfl⟩ := Database.findJob_of_findJobByReceiptId hjob
  obtain ⟨x, hx, rfl⟩ := (h.suffix hearlier).current_refines.paired.of_job hstored
  obtain ⟨x', hx', hevolves⟩ := h.evolves hearlier hx
  refine ⟨x'.job, ?_, hevolves.flagged hflag⟩
  rw [hx.receiptId, ← hevolves.sameReceipt.id]
  exact h.current_refines.paired.findJobByReceiptId hx'

/-! ## Calls that were refused the lock -/

variable {ι : Type} [DecidableEq ι] {exclusive : Prop} {calls : ι → UploadCall}
variable {base : List Commit} {pool pool' : CallsPool ι} {i : ι} {receipt : Receipt}
variable {job : ReceiptExtractionJob}

/-- The call was refused the lock just now, and by then somebody has stored the receipt of
its image for its owner. -/
structure Overtaken (P : Platform) (employees : Table Employee) (calls : ι → UploadCall)
    (pool : CallsPool ι) (i : ι) (receipt : Receipt) : Prop where
  refused : ∃ outcome older rest, outcome ≠ .acquired ∧
    pool.threads i = some ⟨⟨.tryLock ((calls i).lockKey P), .ok outcome⟩ :: older, some rest⟩
  found : (current employees pool.shared.trace).findByCompanyIdAndImageSha256 P
    (calls i).companyId (P.sha256 (calls i).bytes) = some receipt
  owner : receipt.ownerEmployeeId = (calls i).ownerId

/-- A request of the call has failed in between. -/
def FailedSince (pool pool' : CallsPool ι) (i : ι) : Prop :=
  ∃ told request e, pool'.past i = told ++ pool.past i ∧
    (⟨request, .error e⟩ : UploadExchange) ∈ told

/-- The call returns the receipt `id`, whatever the others do, unless a request of it
fails; and it comes to its end. -/
structure Converges (P : Platform) (employees : Table Employee) (exclusive : Prop)
    (calls : ι → UploadCall) (pool : CallsPool ι) (i : ι) (id : Long) : Prop where
  returns : ∀ pool' outcome,
    Relation.ReflTransGen (Pool.Step (callsRules P employees exclusive calls)) pool pool' →
    pool'.Ended i outcome →
      (∃ result, outcome = .ok result ∧ result.receipt.id = id) ∨ FailedSince pool pool' i
  ends : ∃ pool' result,
    Relation.ReflTransGen (Pool.Step (callsRules P employees exclusive calls)) pool pool' ∧
      pool'.Ended i (.ok result) ∧ result.receipt.id = id

/-- What is left of a call that was refused the lock. -/
theorem Overtaken.rest (hrefused : Overtaken P employees calls pool i receipt)
    (h : CallsRun P employees exclusive calls base pool) :
    ∃ message, pool.threads i = some ⟨pool.past i, some (converge P (calls i) message)⟩ := by
  obtain ⟨outcome, older, rest, hnot, hthread⟩ := hrefused.refused
  obtain ⟨next, hnext, hrest⟩ := Pool.Run.rest h (proceeds_upload P (calls i)) hthread
  obtain ⟨message, hmessage⟩ := hnext outcome hnot
  refine ⟨message, ?_⟩
  rw [Pool.past_of_thread hthread, ← hmessage]
  rwa [hrest] at hthread

/-- The call may make its two queries while nobody else moves. -/
theorem Overtaken.alone (hrefused : Overtaken P employees calls pool i receipt)
    (h : CallsRun P employees exclusive calls base pool)
    (hjob : (current employees pool.shared.trace).findJobByReceiptId receipt.id = some job) :
    ∃ pool' outcome message,
      Relation.ReflTransGen (Pool.Step (callsRules P employees exclusive calls)) pool pool' ∧
      pool'.Ended i outcome ∧
      pool'.past i = ⟨.findJobByReceiptId receipt.id, .ok (some job)⟩ ::
        ⟨.findByCompanyIdAndImageSha256 (calls i).companyId (P.sha256 (calls i).bytes),
          .ok (some receipt)⟩ :: pool.past i ∧
      outcome = if job.duplicateDetected = true then
          .ok { receipt, job, created := false, idempotentReplay := false }
        else .error (.receiptConflict message) := by
  obtain ⟨message, hthread⟩ := hrefused.rest h
  obtain ⟨next, hnext, next', hnext', hdone⟩ := converge_eq (P := P) hrefused.owner message
  have hpossible : ∀ {request : UploadRequest} {result : request.Result},
      request.Possible (.ok result) := fun e he => absurd he (by simp)
  -- the first query finds the receipt, the second one its job
  obtain ⟨found, hfirst, hshared, hfound⟩ : ∃ found : CallsPool ι,
      Pool.Step (callsRules P employees exclusive calls) pool found ∧
        found.shared = pool.shared ∧ found.threads i = some ⟨⟨.findByCompanyIdAndImageSha256
          (calls i).companyId (P.sha256 (calls i).bytes), .ok (some receipt)⟩ :: pool.past i,
          some (next (.ok (some receipt)))⟩ :=
    Pool.exists_served hthread hnext ⟨hpossible, hrefused.found.symm, rfl⟩
  rw [← hshared] at hjob
  obtain ⟨ended, hsecond, -, hended⟩ : ∃ ended : CallsPool ι,
      Pool.Step (callsRules P employees exclusive calls) found ended ∧
        ended.shared = found.shared ∧ ended.threads i = some ⟨⟨.findJobByReceiptId receipt.id,
          .ok (some job)⟩ :: ⟨.findByCompanyIdAndImageSha256 (calls i).companyId
          (P.sha256 (calls i).bytes), .ok (some receipt)⟩ :: pool.past i,
          some (next' (.ok (some job)))⟩ :=
    Pool.exists_served hfound hnext' ⟨hpossible, hjob.symm, rfl⟩
  have hpast := Pool.past_of_thread hended
  refine ⟨ended, _, message, .tail (.single hfirst) hsecond, ?_, hpast, rfl⟩
  rw [Pool.Ended, hpast, hended, hdone]

/-- A flagged receipt is returned, whatever the others do in the meantime. -/
theorem Overtaken.returns (hrefused : Overtaken P employees calls pool i receipt)
    (h : CallsRun P employees exclusive calls base pool) (hbase : Run P employees base)
    (hjob : (current employees pool.shared.trace).findJobByReceiptId receipt.id = some job)
    (hflag : job.duplicateDetected = true)
    (hlater : Relation.ReflTransGen (Pool.Step (callsRules P employees exclusive calls)) pool pool')
    {outcome : Except Failure UploadResult} (hended : pool'.Ended i outcome) :
    (∃ result, outcome = .ok result ∧ result.receipt.id = receipt.id) ∨
      FailedSince pool pool' i := by
  obtain ⟨message, hthread⟩ := hrefused.rest h
  have hrun : Run P employees pool'.shared.trace :=
    (CallsRun.continues (Pool.Run.later h hlater)).run hbase
  obtain ⟨told, hpast, hrecovers⟩ : ∃ told, pool'.past i = told ++ pool.past i ∧
      Recovers P (calls i) told outcome :=
    Pool.along_later possible_of_serves hthread (along_converge message) hlater hended
  obtain ⟨newer, hpast', htrue⟩ := true_in_turn_later hlater i
  obtain rfl : newer = told := List.append_cancel_right (hpast'.symm.trans hpast)
  -- what was found is the stored receipt, at whatever moment it was looked up
  have hfound : ∀ {moment found}, pool.shared.trace <:+ moment → moment <:+ pool'.shared.trace →
      found = (current employees moment).findByCompanyIdAndImageSha256 P (calls i).companyId
        (P.sha256 (calls i).bytes) → ∃ receipt', found = some receipt' ∧
          SameReceipt receipt receipt' := by
    rintro moment found hsince hupto rfl
    exact (hrun.suffix hupto).found_later hsince hrefused.found
  have hflagged : ∀ {later found}, pool.shared.trace <:+ later → later <:+ pool'.shared.trace →
      found = (current employees later).findJobByReceiptId receipt.id →
        ∃ job', found = some job' ∧ job'.duplicateDetected = true := by
    rintro later found hsince hupto rfl
    exact (hrun.suffix hupto).flagged_later hsince hjob hflag
  cases hrecovers with
  | failed => exact .inr ⟨_, _, _, hpast, List.mem_cons_self⟩
  | unknown =>
      obtain ⟨moment, hupto, hanswer, hsince⟩ := htrue
      obtain ⟨receipt', hsome, -⟩ := hfound hsince hupto hanswer
      exact absurd hsome (by simp)
  | foreign hother =>
      obtain ⟨moment, hupto, hanswer, hsince⟩ := htrue
      obtain ⟨receipt', hsome, hsame⟩ := hfound hsince hupto hanswer
      cases hsome
      exact absurd (hsame.ownerEmployeeId.trans hrefused.owner) hother
  | jobless =>
      obtain ⟨later, hlate, hmissing, moment, hupto, hanswer, hsince⟩ := htrue
      obtain ⟨receipt', hsome, hsame⟩ := hfound hsince (hupto.trans hlate) hanswer
      cases hsome
      rw [hsame.id] at hmissing
      obtain ⟨job', hsome, -⟩ := hflagged (hsince.trans hupto) hlate hmissing
      exact absurd hsome (by simp)
  | unflagged hunflagged =>
      obtain ⟨later, hlate, hjob', moment, hupto, hanswer, hsince⟩ := htrue
      obtain ⟨receipt', hsome, hsame⟩ := hfound hsince (hupto.trans hlate) hanswer
      cases hsome
      rw [hsame.id] at hjob'
      obtain ⟨job', hsome, hset⟩ := hflagged (hsince.trans hupto) hlate hjob'
      cases hsome
      exact absurd (hset.symm.trans hunflagged) (by simp)
  | processed =>
      obtain ⟨later, hlate, -, moment, hupto, hanswer, hsince⟩ := htrue
      obtain ⟨receipt', hsome, hsame⟩ := hfound hsince (hupto.trans hlate) hanswer
      cases hsome
      exact .inl ⟨_, rfl, hsame.id⟩

/-- A receipt that is not flagged yet is answered with a conflict. -/
theorem Overtaken.not_converges (hrefused : Overtaken P employees calls pool i receipt)
    (h : CallsRun P employees exclusive calls base pool)
    (hjob : (current employees pool.shared.trace).findJobByReceiptId receipt.id = some job)
    (hflag : job.duplicateDetected = false) :
    ¬ Converges P employees exclusive calls pool i receipt.id := by
  intro hconverges
  obtain ⟨pool', outcome, message, hlater, hended, hpast, houtcome⟩ := hrefused.alone h hjob
  rw [if_neg (by simp [hflag])] at houtcome
  rcases hconverges.returns pool' outcome hlater hended with
    ⟨result, hok, -⟩ | ⟨told, request, e, htold, hmem⟩
  · exact absurd (houtcome.symm.trans hok) (by simp)
  · -- both queries were answered
    have hqueries : told = [⟨.findJobByReceiptId receipt.id, .ok (some job)⟩,
        ⟨.findByCompanyIdAndImageSha256 (calls i).companyId (P.sha256 (calls i).bytes),
          .ok (some receipt)⟩] := List.append_cancel_right (htold.symm.trans hpast)
    rw [hqueries] at hmem
    simp only [List.mem_cons, List.not_mem_nil, or_false] at hmem
    rcases hmem with heq | heq <;> cases heq

theorem Overtaken.exists_job (hrefused : Overtaken P employees calls pool i receipt)
    (h : CallsRun P employees exclusive calls base pool) (hbase : Run P employees base) :
    ∃ job, (current employees pool.shared.trace).findJobByReceiptId receipt.id = some job := by
  have hpaired := ((CallsRun.continues h).run hbase).current_refines.paired
  obtain ⟨hstored, -⟩ := findByCompanyIdAndImageSha256_eq_some hrefused.found
  obtain ⟨row, hrow, rfl⟩ := Database.findReceipt_eq_some.mp hstored
  obtain ⟨x, hx, rfl⟩ := hpaired.of_receipt hrow
  exact ⟨x.job, hpaired.findJobByReceiptId hx⟩

/-- An upload that was refused the lock returns the receipt that is stored for its image and
its owner exactly if the job of the receipt is flagged as a duplicate by then. -/
theorem converges_iff (h : CallsRun P employees exclusive calls base pool)
    (hbase : Run P employees base) (hrefused : Overtaken P employees calls pool i receipt) :
    Converges P employees exclusive calls pool i receipt.id ↔
      ∃ job, (current employees pool.shared.trace).findJobByReceiptId receipt.id = some job ∧
        job.duplicateDetected = true := by
  obtain ⟨job, hjob⟩ := hrefused.exists_job h hbase
  constructor
  · intro hconverges
    refine ⟨job, hjob, ?_⟩
    by_contra hflag
    exact hrefused.not_converges h hjob (by simpa using hflag) hconverges
  · rintro ⟨flagged, hflagged, hflag⟩
    refine ⟨fun pool' outcome hlater hended => ?_, ?_⟩
    · exact hrefused.returns h hbase hflagged hflag hlater hended
    · obtain ⟨pool', outcome, message, hlater, hended, -, rfl⟩ := hrefused.alone h hflagged
      rw [if_pos hflag] at hended
      exact ⟨pool', _, hlater, hended, rfl⟩

/-! ## Two uploads of one image -/

namespace Sample

/-- The same image under two keys. -/
def twiceCalls : ℕ → UploadCall
  | 0 => uploadOf "key-1" imageA
  | 1 => uploadOf "key-2" imageA
  | _ => uploadOf "key-3" imageA

/-- The first upload has stored the receipt and holds the lock when the wait of the second
one ends. -/
def storedActions : List (CallsAction ℕ) :=
  [.start 0, .start 1] ++ goesOn 1 2 2 ++ goesOn 0 1 8 ++ goesOn 1 3 1

/-- A third upload holds it, and has marked the receipt. -/
def markedActions : List (CallsAction ℕ) :=
  [.start 0, .start 1, .start 2] ++ goesOn 1 2 2 ++ goesOn 0 1 9 ++ goesOn 2 3 7 ++ goesOn 1 4 1

def storedPool : CallsPool ℕ := poolAfter platform staff True twiceCalls [] storedActions

def markedPool : CallsPool ℕ := poolAfter platform staff True twiceCalls [] markedActions

theorem storedPool_run : CallsRun platform staff True twiceCalls [] storedPool := by
  apply callsRun_poolAfter
  simp [storedActions, goesOn, CallsAction.Permitted]

theorem markedPool_run : CallsRun platform staff True twiceCalls [] markedPool := by
  apply callsRun_poolAfter
  simp [markedActions, goesOn, CallsAction.Permitted]

/-- The receipt has just been stored. -/
theorem storedPool_overtaken :
    ∃ receipt job, Overtaken platform staff twiceCalls storedPool 1 receipt ∧
      (current staff storedPool.shared.trace).findJobByReceiptId receipt.id = some job ∧
        job.duplicateDetected = false :=
  ⟨_, _, ⟨⟨.timedOut, _, _, by simp, rfl⟩, rfl, by decide +kernel⟩, rfl, by decide +kernel⟩

/-- The receipt has been marked. -/
theorem markedPool_overtaken :
    ∃ receipt job, Overtaken platform staff twiceCalls markedPool 1 receipt ∧
      (current staff markedPool.shared.trace).findJobByReceiptId receipt.id = some job ∧
        job.duplicateDetected = true :=
  ⟨_, _, ⟨⟨.timedOut, _, _, by simp, rfl⟩, rfl, by decide +kernel⟩, rfl, by decide +kernel⟩

end Sample

open Sample in
/-- A call whose wait ends while the receipt of its image is stored but not flagged does not
return the receipt. -/
theorem timedOut_not_converging :
    ¬ ∀ (P : Platform) (employees : Table Employee) (exclusive : Prop) (calls : ℕ → UploadCall)
      (base : List Commit) (pool : CallsPool ℕ) (i : ℕ) (receipt : Receipt),
      CallsRun P employees exclusive calls base pool → Run P employees base →
        Overtaken P employees calls pool i receipt →
        Converges P employees exclusive calls pool i receipt.id := by
  intro hconverges
  obtain ⟨receipt, job, hrefused, hjob, hflag⟩ := storedPool_overtaken
  exact hrefused.not_converges storedPool_run hjob hflag
    (hconverges _ _ _ _ _ _ _ _ storedPool_run .nil hrefused)

open Sample in
/-- A call whose wait ends after the receipt was marked returns it. -/
theorem markedPool_converges :
    ∃ receipt, Overtaken platform staff twiceCalls markedPool 1 receipt ∧
      Converges platform staff True twiceCalls markedPool 1 receipt.id := by
  obtain ⟨receipt, job, hrefused, hjob, hflag⟩ := markedPool_overtaken
  exact ⟨receipt, hrefused, (converges_iff markedPool_run .nil hrefused).mpr ⟨job, hjob, hflag⟩⟩

end ReceiptReview
