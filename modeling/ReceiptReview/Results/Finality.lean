import ReceiptReview.Lifecycle.Runs
import ReceiptReview.Service.Query
import ReceiptReview.System.Replay

/-!
# Final states

No setter of the entities guards a final state.  A completed or failed job is
final since its mutators ask for a waiting or processing job.  An approved or
rejected receipt is final since an outcome needs a pending job, and then the
receipt has no status yet; the other operations check its status themselves.

A later duplicate writes the data of a decided receipt again as it is read.  That
changes nothing, since the decision has already written it so.
-/

namespace ReceiptReview

open Java Store ReceiptCase ReceiptCommandService ReceiptStatusRouter

variable {P : Platform} {employees : Table Employee} {trace : List Commit}
variable {operation : Operation} {x x' : ReceiptCase} {events : List AuditEvent}

/-! ## Steps from a final state -/

/-- The extraction has delivered an outcome. -/
def ExtractionJobStatus.IsFinal (status : ExtractionJobStatus) : Prop :=
  status = .completed ∨ status = .failed

instance : DecidablePred ExtractionJobStatus.IsFinal :=
  fun status => inferInstanceAs (Decidable (status = .completed ∨ status = .failed))

theorem ExtractionJobStatus.IsFinal.not_isPending {status : ExtractionJobStatus}
    (h : status.IsFinal) : ¬ status.isPending := by
  rcases h with rfl | rfl <;> decide

/-- A human decision has been taken. -/
def ReceiptStatus.IsFinal (status : ReceiptStatus) : Prop :=
  status = .approved ∨ status = .rejected

theorem ReceiptCase.Step.final_job (h : Step employees operation x events x')
    (hfinal : x.job.status.IsFinal) : x'.job.status = x.job.status := by
  rcases h.of_ended hfinal.not_isPending with ⟨now, today, -, hjob⟩ | ⟨-, hjob⟩ <;> rw [hjob]
  rfl

theorem route_not_isFinal (data : Option ReceiptData) (results : List RuleResult) :
    ¬ (route data results).IsFinal := by
  rcases route_cases data results with hroute | hroute | hroute <;>
    simp [hroute, ReceiptStatus.IsFinal]

theorem correctedStatus_not_isFinal (employee : Employee) (receipt : Receipt) (after : ReceiptData)
    (results : List RuleResult) : ¬ (correctedStatus employee receipt after results).IsFinal := by
  unfold correctedStatus
  simp only
  split
  · simp [ReceiptStatus.IsFinal]
  · exact route_not_isFinal _ _

/-- What is decided reads back as it is stored. -/
def ReceiptCase.DecidedAsRead (x : ReceiptCase) : Prop :=
  ∀ status, x.receipt.status = some status → status.IsFinal →
    x.receipt.reread.currentData = x.receipt.currentData

/-- A decision writes the data that it has read, and reading that changes it no more. -/
theorem ReceiptCase.Step.decidedAsRead (h : Step employees operation x events x')
    (hx : x.DecidedAsRead) : x'.DecidedAsRead := by
  have hread := congrArg Receipt.currentData x.receipt.reread_reread
  cases h with
  | claimed | released | recovered | retryScheduled | duplicateDeferred => exact hx
  | qualityRejected | failed => exact fun _ _ _ => rfl
  | extracted =>
      intro status hstatus hfinal
      cases hstatus
      exact absurd hfinal (route_not_isFinal _ _)
  | corrected =>
      intro status hstatus hfinal
      cases hstatus
      exact absurd hfinal (correctedStatus_not_isFinal _ _ _ _)
  | duplicateMarked | decided => exact fun _ _ _ => hread

theorem ReceiptCase.Reaches.decidedAsRead {log : List AuditEvent} (h : Reaches P employees x log) :
    x.DecidedAsRead := by
  induction h with
  | created hpermitted =>
      obtain ⟨call, contentType, now, rfl, -, -⟩ := hpermitted
      exact fun _ _ _ => rfl
  | step _ _ hstep ih => exact hstep.decidedAsRead ih

theorem ReceiptCase.Step.final_receipt (h : Step employees operation x events x')
    (hx : x.Consistent) (hread : x.DecidedAsRead) {status : ReceiptStatus}
    (hstatus : x.receipt.status = some status) (hfinal : status.IsFinal) :
    x'.receipt.status = some status ∧ x'.receipt.currentData = x.receipt.currentData := by
  have hnotEditable : validateEditableStatus x.receipt ≠ .ok () := by
    intro heditable
    obtain ⟨status', hstatus', hnotApproved, hnotRejected⟩ := some_status_of_editable heditable
    rw [hstatus] at hstatus'
    cases hstatus'
    rcases hfinal with rfl | rfl
    · exact hnotApproved rfl
    · exact hnotRejected rfl
  rcases h.of_ended (hx.ended hstatus) with ⟨now, today, hmark, -⟩ | ⟨hedits, -⟩
  · cases h with
    | duplicateDeferred => exact ⟨hstatus, rfl⟩
    | duplicateMarked _ hprevious hnext =>
        -- a duplicate is routed again only while its status is not terminal
        rw [hstatus] at hprevious
        cases hprevious
        have hterminal : ReceiptPersistenceService.isTerminal status = true := by
          rcases hfinal with rfl | rfl <;> rfl
        rw [hterminal] at hnext
        exact ⟨congrArg some hnext, hread status hstatus hfinal⟩
    | _ => cases hmark
  · cases h with
    | corrected _ _ _ heditable | decided _ _ _ heditable =>
        exact absurd heditable hnotEditable
    | _ => cases hedits

/-! ## Whole runs -/

theorem ReceiptCase.Evolves.consistent (h : Evolves P employees x x') (hx : x.Consistent) :
    x'.Consistent := by
  induction h with
  | refl => exact hx
  | step _ _ hstep ih => exact hstep.consistent ih

theorem ReceiptCase.Evolves.final_job (h : Evolves P employees x x')
    (hfinal : x.job.status.IsFinal) : x'.job.status = x.job.status := by
  induction h with
  | refl => rfl
  | step _ _ hstep ih => rw [hstep.final_job (by rwa [ih]), ih]

theorem ReceiptCase.Evolves.decidedAsRead (h : Evolves P employees x x') (hx : x.DecidedAsRead) :
    x'.DecidedAsRead := by
  induction h with
  | refl => exact hx
  | step _ _ hstep ih => exact hstep.decidedAsRead ih

theorem ReceiptCase.Evolves.final_receipt (h : Evolves P employees x x') (hx : x.Consistent)
    (hread : x.DecidedAsRead) {status : ReceiptStatus} (hstatus : x.receipt.status = some status)
    (hfinal : status.IsFinal) :
    x'.receipt.status = some status ∧ x'.receipt.currentData = x.receipt.currentData := by
  induction h with
  | refl => exact ⟨hstatus, rfl⟩
  | step hevolves _ hstep ih =>
      obtain ⟨hthen, hdata⟩ := ih
      obtain ⟨hnow, hdata'⟩ := hstep.final_receipt (hevolves.consistent hx)
        (hevolves.decidedAsRead hread) hthen hfinal
      exact ⟨hnow, hdata'.trans hdata⟩

theorem isPending_iff {status : ExtractionJobStatus} :
    status.isPending = true ↔ status = .queued ∨ status = .processing ∨ status = .retryWait := by
  cases status <;> simp [ExtractionJobStatus.isPending]

/-- In every snapshot of a run, a stored receipt has a job, and its status is
null exactly while the job is pending. -/
theorem Run.status_iff (h : Run P employees trace) {db : Database}
    (hdb : db ∈ snapshots employees trace) {id : Long} {receipt : Receipt}
    (hreceipt : db.receiptRow id = some receipt) :
    ∃ job, db.findJobByReceiptId id = some job ∧
      (receipt.status = none ↔
        job.status = .queued ∨ job.status = .processing ∨ job.status = .retryWait) := by
  have hrefines := (h.refines hdb).1
  obtain ⟨x, hx, rfl⟩ := hrefines.paired.of_receipt hreceipt
  have hjob := hrefines.paired.findJobByReceiptId hx
  rw [Database.id_of_receiptRow hreceipt] at hjob
  refine ⟨x.job, hjob, ?_⟩
  rw [← isPending_iff]
  exact (hrefines.reaches hx).consistent.status_iff

/-- In every reachable state the status of a receipt is null exactly while its
job is pending.  A completed or failed job keeps its status, and an approved or
rejected receipt its status and its data, for the rest of the run.  So every
detail response shows a null status exactly with a pending job. -/
theorem status_and_finality (hrun : Run P employees trace) :
    (∀ id receipt, (current employees trace).receiptRow id = some receipt →
      ∃ job, (current employees trace).findJobByReceiptId id = some job ∧
        (receipt.status = none ↔
          job.status = .queued ∨ job.status = .processing ∨ job.status = .retryWait)) ∧
    (∀ earlier, earlier <:+ trace → ∀ id job,
      (current employees earlier).findJob id = some job → job.status.IsFinal →
      ∃ job', (current employees trace).findJob id = some job' ∧ job'.status = job.status) ∧
    (∀ earlier, earlier <:+ trace → ∀ id receipt status,
      (current employees earlier).receiptRow id = some receipt →
      receipt.status = some status → status.IsFinal →
      ∃ receipt', (current employees trace).receiptRow id = some receipt' ∧
        receipt'.status = some status ∧ receipt'.currentData = receipt.currentData) ∧
    (∀ snapshot ∈ snapshots employees trace, ∀ session id response,
      ReceiptQueryService.getReceiptDetail snapshot session id = .ok response →
      (response.status = none ↔ response.jobStatus = .queued ∨ response.jobStatus = .processing ∨
        response.jobStatus = .retryWait)) := by
  refine ⟨?_, ?_, ?_, ?_⟩
  · intro id receipt hreceipt
    exact hrun.status_iff (current_mem_snapshots _ _) hreceipt
  · intro earlier hearlier id job hjob hfinal
    obtain ⟨x, hx, rfl⟩ := (hrun.suffix hearlier).current_refines.paired.of_job hjob
    obtain ⟨x', hx', hevolves⟩ := hrun.evolves hearlier hx
    refine ⟨x'.job, ?_, hevolves.final_job hfinal⟩
    rw [← Database.id_of_findJob hjob, ← hevolves.sameJob.id]
    exact hx'.job
  · intro earlier hearlier id receipt status hreceipt hstatus hfinal
    obtain ⟨x, x', hx, rfl, hreceipt', hevolves⟩ := hrun.evolves_of_receipt hearlier hreceipt
    have hreaches := (hrun.suffix hearlier).current_refines.reaches hx
    exact ⟨x'.receipt, hreceipt', hevolves.final_receipt hreaches.consistent
      hreaches.decidedAsRead hstatus hfinal⟩
  · intro snapshot hsnapshot session id response hresponse
    obtain ⟨receipt, job, hreceipt, hjob, rfl⟩ :=
      ReceiptQueryService.getReceiptDetail_eq_ok hresponse
    obtain ⟨job', hjob', hiff⟩ := hrun.status_iff hsnapshot hreceipt
    rw [hjob] at hjob'
    cases hjob'
    exact hiff

/-! ## A run with an approval -/

namespace Sample

/-- An image is submitted, extracted, approved by a reviewer, and submitted again. -/
def approvalOperations : List Operation :=
  [intakeOf (uploadOf "key-1" imageA) 1 1 0,
    claimAll 1 "token",
    .completeExtraction (firstClaim 1 "token") ⟨some goodData, [], []⟩ 2 0 2,
    .decide (login 2 "reviewer") 1 1 .approve none 3,
    .markDuplicate 1 4 0]

def approvalTrace : List Commit := (replay platform staff [] approvalOperations).getD []

theorem approvalTrace_run : Run platform staff approvalTrace := by
  refine run_of_replay approvalOperations .nil ?_ rfl
  simp only [approvalOperations, List.forall_mem_cons]
  exact ⟨intakeOf_permitted .., trivial, trivial, login_loaded _ _, trivial, by simp⟩

end Sample

open Sample in
/-- The second submission changes the rules of the approved receipt, not its
status and data. -/
theorem approvalTrace_final :
    ∃ receipt, (current staff approvalTrace).receiptRow 1 = some receipt ∧
      receipt.status = some .approved ∧ receipt.currentData = some goodData :=
  (status_and_finality approvalTrace_run).2.2.1 approvalTrace.tail (List.tail_suffix _) 1 _
    .approved rfl rfl (.inl rfl)

end ReceiptReview
