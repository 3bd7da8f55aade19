import ReceiptReview.Concurrent.Calls
import ReceiptReview.System.Replay

/-!
# Scheduling calls

A schedule says which call makes its next request, and what the rest of the
system commits in between.  The requests are answered as the database and the
lock are, so a schedule that can be carried out gives a run of the calls
(`callsRun_of_schedule`).
-/

namespace ReceiptReview

open Java Store

variable {P : Platform} {employees : Table Employee} {ι : Type} [DecidableEq ι]
variable {exclusive : Prop} [Decidable exclusive] {calls : ι → UploadCall} {base : List Commit}

/-- What the environment gives to a request: the time and the next keys. -/
structure Environment where
  now : Instant
  today : LocalDate
  receiptId : Long
  jobId : Long

/-- The next move of the system. -/
inductive CallsAction (ι : Type)
  | start (i : ι)
  | serve (i : ι) (environment : Environment)
  | commit (operation : Operation)

/-- The pool, and who holds which lock. -/
structure Scheduled (ι : Type) where
  pool : CallsPool ι
  held : List (JString × ι)

/-- Every holder of a lock is listed. -/
def Lists (held : List (JString × ι)) (s : CallsState ι) : Prop :=
  ∀ lockKey i, s.holders lockKey i → (lockKey, i) ∈ held

/-- Commit one operation on behalf of a call or of nobody. -/
def commitFor (P : Platform) (employees : Table Employee) (s : CallsState ι) (author : Option ι)
    (operation : Operation) : Option (Reply × CallsState ι) :=
  match step? P employees s.trace operation with
  | some (commit :: _) => some (commit.reply, s.add author commit)
  | _ => none

/-- Answer a request of the call `i`. -/
def answerTo (P : Platform) (employees : Table Employee) (exclusive : Prop) [Decidable exclusive]
    (environment : Environment) (i : ι) (s : CallsState ι) (held : List (JString × ι)) :
    (request : UploadRequest) → request.Answer × CallsState ι × List (JString × ι)
  | .findByCompanyIdAndIdempotencyKey companyId idempotencyKey =>
      (.ok ((current employees s.trace).findByCompanyIdAndIdempotencyKey P companyId
        idempotencyKey), s, held)
  | .findByCompanyIdAndImageSha256 companyId imageSha256 =>
      (.ok ((current employees s.trace).findByCompanyIdAndImageSha256 P companyId imageSha256), s,
        held)
  | .findReceiptById id => (.ok ((current employees s.trace).findReceipt id), s, held)
  | .findJobByReceiptId receiptId =>
      (.ok ((current employees s.trace).findJobByReceiptId receiptId), s, held)
  | .tryLock lockKey =>
      if exclusive ∧ (held.any fun holder => holder.1 = lockKey) then (.ok .timedOut, s, held)
      else (.ok .acquired, s.acquire lockKey i, (lockKey, i) :: held)
  | .unlock lockKey => (.ok (), s.release lockKey i, held.filter (· ≠ (lockKey, i)))
  | .now => (.ok environment.now, s, held)
  | .store _ _ _ => (.ok (.ofString "internal/image.jpg"), s, held)
  | .createQueued receipt imageStorageKey idempotencyKey auditEvents =>
      match commitFor P employees s (some i) (.createQueued receipt imageStorageKey idempotencyKey
        auditEvents environment.receiptId environment.jobId environment.now environment.now) with
      | some (.created created job, s') => (.ok (created, job), s', held)
      | _ => (.error .dataIntegrityViolation, s, held)
  | .markDuplicate receiptId =>
      match commitFor P employees s (some i)
        (.markDuplicate receiptId environment.now environment.today) with
      | some (.receipt receipt, s') => (.ok receipt, s', held)
      | _ => (.error .optimisticLockingFailure, s, held)

/-- Make one move, if it is possible. -/
def act? (P : Platform) (employees : Table Employee) (exclusive : Prop) [Decidable exclusive]
    (calls : ι → UploadCall) (scheduled : Scheduled ι) : CallsAction ι → Option (Scheduled ι)
  | .start i =>
      match scheduled.pool.threads i with
      | some _ => none
      | none =>
          some ⟨scheduled.pool.update scheduled.pool.shared i
            ⟨[], some (ReceiptUploadService.upload P (calls i))⟩, scheduled.held⟩
  | .serve i environment =>
      match scheduled.pool.threads i with
      | some ⟨past, some (.call request next)⟩ =>
          let (answer, s', held') := answerTo P employees exclusive environment i
            scheduled.pool.shared scheduled.held request
          some ⟨scheduled.pool.update s' i ⟨⟨request, answer⟩ :: past, some (next answer)⟩, held'⟩
      | _ => none
  | .commit operation =>
      match commitFor P employees scheduled.pool.shared none operation with
      | some (_, s') => some ⟨{ scheduled.pool with shared := s' }, scheduled.held⟩
      | none => none

/-- Carry out a schedule. -/
def schedule (P : Platform) (employees : Table Employee) (exclusive : Prop) [Decidable exclusive]
    (calls : ι → UploadCall) : Scheduled ι → List (CallsAction ι) → Option (Scheduled ι)
  | scheduled, [] => some scheduled
  | scheduled, action :: actions =>
      match act? P employees exclusive calls scheduled action with
      | none => none
      | some scheduled => schedule P employees exclusive calls scheduled actions

/-- What the rest of the system may commit in a schedule. -/
def CallsAction.Permitted (P : Platform) (employees : Table Employee) : CallsAction ι → Prop
  | .commit operation => operation.isIntake = false ∧ operation.Permitted P employees
  | _ => True

variable {s s' : CallsState ι} {held : List (JString × ι)}

omit [DecidableEq ι] in
theorem commitFor_eq_some {author : Option ι} {operation : Operation} {reply : Reply}
    (h : commitFor P employees s author operation = some (reply, s')) :
    ∃ commit : Commit, commit.operation = operation ∧ commit.reply = reply ∧
      Extends P employees s.trace commit.operation commit.reply (commit :: s.trace) ∧
      s' = s.add author commit := by
  unfold commitFor step? at h
  split at h
  · rename_i commit _ hstep
    simp only at hstep
    split at hstep
    · exact absurd hstep (by simp)
    · rename_i reply' changes hbody
      split at hstep
      · exact absurd hstep (by simp)
      · rename_i after hcommit
        cases hstep
        cases h
        exact ⟨_, rfl, rfl,
          ⟨_, current_mem_snapshots _ _, changes, after, hbody, hcommit, rfl⟩, rfl⟩
  · exact absurd h (by simp)

/-- A request is answered as the rules of the calls say. -/
theorem serves_answerTo (environment : Environment) (i : ι) (hheld : exclusive → Lists held s)
    (request : UploadRequest) :
    (callsRules P employees exclusive calls).serves i s request
      (answerTo P employees exclusive environment i s held request).1
      (answerTo P employees exclusive environment i s held request).2.1 := by
  have hpossible : ∀ {request : UploadRequest} {result : request.Result},
      request.Possible (.ok result) := fun e he => absurd he (by simp)
  cases request with
  | tryLock lockKey =>
      simp only [answerTo]
      split
      · exact ⟨hpossible, trivial, rfl⟩
      · rename_i hfree
        refine ⟨hpossible, trivial, fun hexclusive j hholds => hfree ⟨hexclusive, ?_⟩, rfl⟩
        rw [List.any_eq_true]
        exact ⟨_, hheld hexclusive _ _ hholds, by simp⟩
  | createQueued receipt imageStorageKey idempotencyKey auditEvents =>
      simp only [answerTo]
      split
      · rename_i created job s' hcommit
        obtain ⟨commit, hoperation, hreply, hextends, rfl⟩ := commitFor_eq_some hcommit
        exact ⟨hpossible, trivial, commit, ⟨⟨_, _, _, _, hoperation⟩, hreply⟩, hextends, rfl⟩
      · refine ⟨fun e he => ?_, trivial, rfl⟩
        cases he
        rfl
  | markDuplicate receiptId =>
      simp only [answerTo]
      split
      · rename_i receipt s' hcommit
        obtain ⟨commit, hoperation, hreply, hextends, rfl⟩ := commitFor_eq_some hcommit
        exact ⟨hpossible, trivial, commit, ⟨⟨_, _, hoperation⟩, hreply⟩, hextends, rfl⟩
      · refine ⟨fun e he => ?_, trivial, rfl⟩
        cases he
        rfl
  | _ => exact ⟨hpossible, by trivial, rfl⟩

/-- The holders stay listed. -/
theorem lists_answerTo (environment : Environment) (i : ι) (hheld : Lists held s)
    (request : UploadRequest) :
    Lists (answerTo P employees exclusive environment i s held request).2.2
      (answerTo P employees exclusive environment i s held request).2.1 := by
  cases request with
  | tryLock lockKey =>
      simp only [answerTo]
      split
      · exact hheld
      · intro key j hholds
        rcases hholds with hholds | ⟨rfl, rfl⟩
        · exact List.mem_cons_of_mem _ (hheld key j hholds)
        · exact List.mem_cons_self
  | unlock lockKey =>
      intro key j hkept
      obtain ⟨hholds, hother⟩ := hkept
      refine List.mem_filter.mpr ⟨hheld key j hholds, decide_eq_true fun hsame => hother ?_⟩
      exact Prod.mk.inj hsame
  | createQueued receipt imageStorageKey idempotencyKey auditEvents =>
      simp only [answerTo]
      split
      · rename_i created job s' hcommit
        obtain ⟨-, -, -, -, rfl⟩ := commitFor_eq_some hcommit
        exact hheld
      · exact hheld
  | markDuplicate receiptId =>
      simp only [answerTo]
      split
      · rename_i receipt s' hcommit
        obtain ⟨-, -, -, -, rfl⟩ := commitFor_eq_some hcommit
        exact hheld
      · exact hheld
  | _ => exact hheld

theorem callsRun_of_act? {scheduled scheduled' : Scheduled ι} {action : CallsAction ι}
    (hrun : CallsRun P employees exclusive calls base scheduled.pool)
    (hheld : Lists scheduled.held scheduled.pool.shared)
    (hpermitted : action.Permitted P employees)
    (h : act? P employees exclusive calls scheduled action = some scheduled') :
    CallsRun P employees exclusive calls base scheduled'.pool ∧
      Lists scheduled'.held scheduled'.pool.shared := by
  cases action with
  | start i =>
      simp only [act?] at h
      split at h
      · exact absurd h (by simp)
      · rename_i hnone
        cases h
        exact ⟨Pool.Run.step hrun (.start hnone rfl), hheld⟩
  | serve i environment =>
      simp only [act?] at h
      split at h
      · rename_i past request next hthread
        cases h
        exact ⟨Pool.Run.step hrun
            (.serve hthread (serves_answerTo environment i (fun _ => hheld) request)),
          lists_answerTo environment i hheld request⟩
      · exact absurd h (by simp)
  | commit operation =>
      simp only [act?] at h
      split at h
      · rename_i reply s' hcommit
        cases h
        obtain ⟨commit, hoperation, -, hextends, rfl⟩ := commitFor_eq_some hcommit
        rw [← hoperation] at hpermitted
        exact ⟨Pool.Run.step hrun (.others ⟨commit, hpermitted.1, hpermitted.2, hextends, rfl⟩),
          hheld⟩
      · exact absurd h (by simp)

theorem callsRun_of_schedule (actions : List (CallsAction ι)) :
    ∀ {scheduled scheduled' : Scheduled ι},
      CallsRun P employees exclusive calls base scheduled.pool →
      Lists scheduled.held scheduled.pool.shared →
      (∀ action ∈ actions, action.Permitted P employees) →
      schedule P employees exclusive calls scheduled actions = some scheduled' →
      CallsRun P employees exclusive calls base scheduled'.pool := by
  induction actions with
  | nil =>
      intro scheduled scheduled' hrun _ _ h
      cases h
      exact hrun
  | cons action actions ih =>
      intro scheduled scheduled' hrun hheld hpermitted h
      unfold schedule at h
      split at h
      · exact absurd h (by simp)
      · rename_i next hact
        obtain ⟨hnext, hheld'⟩ := callsRun_of_act? hrun hheld (hpermitted _ (by simp)) hact
        exact ih hnext hheld' (fun other hother => hpermitted other (by simp [hother])) h

/-- The pool after a schedule that starts from `base`. -/
def poolAfter (P : Platform) (employees : Table Employee) (exclusive : Prop) [Decidable exclusive]
    (calls : ι → UploadCall) (base : List Commit) (actions : List (CallsAction ι)) : CallsPool ι :=
  ((schedule P employees exclusive calls ⟨.initial (.start base), []⟩ actions).map
    Scheduled.pool).getD (.initial (.start base))

theorem callsRun_poolAfter {actions : List (CallsAction ι)}
    (hpermitted : ∀ action ∈ actions, action.Permitted P employees) :
    CallsRun P employees exclusive calls base
      (poolAfter P employees exclusive calls base actions) := by
  have hstart : CallsRun P employees exclusive calls base (.initial (.start base)) := .initial
  unfold poolAfter
  cases hschedule : schedule P employees exclusive calls ⟨.initial (.start base), []⟩ actions with
  | none => exact hstart
  | some scheduled =>
      refine callsRun_of_schedule actions hstart ?_ hpermitted hschedule
      rintro lockKey i ⟨⟩

namespace Sample

/-- The environment of the `n`-th step. -/
def environmentAt (n : ℕ) : Environment where
  now := n
  today := 0
  receiptId := n
  jobId := n

/-- A call makes its next `count` requests. -/
def goesOn (i n count : ℕ) : List (CallsAction ℕ) :=
  List.replicate count (.serve i (environmentAt n))

end Sample

end ReceiptReview
