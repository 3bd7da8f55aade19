import ReceiptReview.Results.AccessPolicy
import ReceiptReview.Store.Log

/-!
# Four eyes

Who stands behind an approval.  A correction by the owner asks for a later
correction or approval by another reviewer: as long as it is unanswered, the
receipt has a status, and that status is not an approval.  So neither a worker,
which only delivers to receipts without a status, nor a duplicate, which routes
to review, can approve it (`FourEyes`).
-/

namespace ReceiptReview

open Java Store ReceiptCase ReceiptCommandService ReceiptPersistenceService
open ReceiptExtractionLifecycleService ValidationEngine ReceiptStatusRouter CurrentEmployeeService

variable {P : Platform} {employees : Table Employee} {trace : List Commit} {commit : Commit}
variable {operation : Operation} {x x' : ReceiptCase} {events log : List AuditEvent}
variable {owner : Option Long} {event : AuditEvent}

/-! ## Corrections and reviews -/

/-- A correction by the owner. -/
def OwnCorrection (owner : Option Long) (event : AuditEvent) : Prop :=
  event.action = .fieldsCorrected ∧ ∃ k, owner = some k ∧ event.actor = employeeActor k

/-- The event was caused by a reviewer or administrator who is not the owner. -/
def ByOtherReviewer (employees : Table Employee) (owner : Option Long) (event : AuditEvent) :
    Prop :=
  ∃ k employee, event.actor = employeeActor k ∧ some k ≠ owner ∧
    employees.find? k = some employee ∧ (employee.role = .reviewer ∨ employee.role = .admin)

/-- A correction or an approval by another reviewer. -/
def OtherReview (employees : Table Employee) (owner : Option Long) (event : AuditEvent) : Prop :=
  (event.action = .fieldsCorrected ∨ event.action = .reviewApproved) ∧
    ByOtherReviewer employees owner event

/-- What keeps an approval away from the corrections of one person. -/
structure FourEyes (employees : Table Employee) (x : ReceiptCase) (log : List AuditEvent) :
    Prop where
  separate : Unanswered (OwnCorrection x.receipt.ownerEmployeeId)
      (OtherReview employees x.receipt.ownerEmployeeId) log →
    ∃ status, x.receipt.status = some status ∧ status ≠ .autoApproved ∧ status ≠ .approved
  approvals : log.countP (fun event => event.action = .reviewApproved) =
    if x.receipt.status = some .approved then 1 else 0
  approvers : ∀ event ∈ log, event.action = .reviewApproved →
    ByOtherReviewer employees x.receipt.ownerEmployeeId event

theorem role_ne_employee {role : EmployeeRole} (h : role ≠ .employee) :
    role = .reviewer ∨ role = .admin := by
  cases role <;> simp_all

/-- An event that is recorded for a reviewer who is not the owner. -/
theorem byOtherReviewer_of_session {session : Session} {employee : Employee}
    (hloaded : session.Loaded employees)
    (hemployee : getCurrentEmployee employees session = .ok employee)
    (hrole : employee.role ≠ .employee) (howner : some employee.id ≠ owner)
    (hactor : event.actor = employeeActor employee.id) : ByOtherReviewer employees owner event := by
  obtain ⟨stored, hstored, hsame⟩ := find?_of_getCurrentEmployee hloaded hemployee
  exact ⟨employee.id, stored, hactor, howner, hstored, role_ne_employee (hsame ▸ hrole)⟩

/-! ## Steps of the machine -/

/-- What a step that is not caused by an employee leaves as it is: it records no
event of an employee, approves nothing that was not approved, and moves a
receipt that has a status and no approval to another such status. -/
structure ReceiptCase.Unattended (x x' : ReceiptCase) (events : List AuditEvent) : Prop where
  events : ∀ event ∈ events, event.action.isHuman = false
  approved : x'.receipt.status = some .approved ↔ x.receipt.status = some .approved
  undecided : ∀ status, x.receipt.status = some status → status ≠ .autoApproved →
    status ≠ .approved →
    ∃ status', x'.receipt.status = some status' ∧ status' ≠ .autoApproved ∧ status' ≠ .approved

/-- A step that delivers an outcome finds a receipt without a status. -/
theorem unattended_of_outcome {status : ReceiptStatus} (hpending : x.receipt.status = none)
    (hstatus : x'.receipt.status = some status) (hnot : status ≠ .approved)
    (hevents : ∀ event ∈ events, event.action.isHuman = false) : x.Unattended x' events where
  events := hevents
  approved := by simp [hpending, hstatus, hnot]
  undecided := by simp [hpending]

theorem unattended_of_status (hstatus : x'.receipt.status = x.receipt.status)
    (hevents : ∀ event ∈ events, event.action.isHuman = false) : x.Unattended x' events where
  events := hevents
  approved := by rw [hstatus]
  undecided status hstatus' hauto hnot := ⟨status, hstatus.trans hstatus', hauto, hnot⟩

/-- A step that routes a receipt again, to review or to manual entry. -/
theorem unattended_of_rerouted {previous next : ReceiptStatus}
    (hprevious : x.receipt.status = some previous) (hundecided : previous ≠ .approved)
    (hnext : x'.receipt.status = some next) (hauto : next ≠ .autoApproved) (hnot : next ≠ .approved)
    (hevents : ∀ event ∈ events, event.action.isHuman = false) : x.Unattended x' events where
  events := hevents
  approved := by simp [hprevious, hnext, hundecided, hnot]
  undecided _ _ _ _ := ⟨next, hnext, hauto, hnot⟩

theorem ReceiptCase.Step.unattended (h : Step employees operation x events x') (hx : x.Consistent)
    (hedits : operation.edits = none) : x.Unattended x' events := by
  cases h with
  | claimed _ hactions | recovered _ hactions =>
      refine unattended_of_status rfl fun event hmem => ?_
      rw [hactions event hmem]
      rfl
  | released => exact unattended_of_status rfl (by simp)
  | retryScheduled => exact unattended_of_status rfl (by simp [systemEvent, AuditAction.isHuman])
  | duplicateDeferred =>
      exact unattended_of_status rfl (by simp [deferredEvent, systemEvent, AuditAction.isHuman])
  | qualityRejected _ _ hcomplete =>
      have howned := (ReceiptExtractionJob.complete_eq_ok hcomplete).1
      refine unattended_of_outcome (hx.status_of_owned howned) rfl ?_
        (by simp [systemEvent, AuditAction.isHuman])
      unfold rejectedStatus
      split <;> simp
  | extracted _ _ hcomplete =>
      have howned := (ReceiptExtractionJob.complete_eq_ok hcomplete).1
      refine unattended_of_outcome (hx.status_of_owned howned) rfl ?_
        (by simp [systemEvent, AuditAction.isHuman])
      exact route_ne_approved
  | failed _ _ hfail =>
      have howned := (ReceiptExtractionJob.fail_eq_ok hfail).1
      exact unattended_of_outcome (hx.status_of_owned howned) rfl (by simp)
        (by simp [systemEvent, AuditAction.isHuman])
  | duplicateMarked _ hprevious hnext =>
      split at hnext
      · refine unattended_of_status ?_ (by simp [duplicateEvent, systemEvent, AuditAction.isHuman])
        rw [hprevious, ← hnext]
        rfl
      · rename_i hterminal
        subst hnext
        refine unattended_of_rerouted hprevious ?_ rfl (route_ne_autoApproved (by simp))
          route_ne_approved (by simp [duplicateEvent, systemEvent, AuditAction.isHuman])
        rintro rfl
        exact hterminal rfl
  | corrected | decided => cases hedits

theorem FourEyes.unattended (hlog : FourEyes employees x log) (h : x.Unattended x' events)
    (howner : x'.receipt.ownerEmployeeId = x.receipt.ownerEmployeeId) :
    FourEyes employees x' (log ++ events) where
  separate hopen := by
    rw [howner, unanswered_append] at hopen
    rcases hopen with hnew | ⟨hold, -⟩
    · -- the machine corrects nothing
      refine absurd hnew (not_unanswered_of_forall fun event hmem hown => ?_)
      have hhuman := h.events event hmem
      rw [hown.1] at hhuman
      exact absurd hhuman (by decide)
    · obtain ⟨status, hstatus, hauto, hnot⟩ := hlog.separate hold
      exact h.undecided status hstatus hauto hnot
  approvals := by
    have hnone : events.countP (fun event => event.action = .reviewApproved) = 0 := by
      rw [List.countP_eq_zero]
      intro event hmem hreview
      have hhuman := h.events event hmem
      rw [of_decide_eq_true hreview] at hhuman
      exact absurd hhuman (by decide)
    rw [List.countP_append, hnone, hlog.approvals]
    simp only [h.approved, Nat.add_zero]
  approvers event hmem hreview := by
    rw [howner]
    rcases List.mem_append.mp hmem with hmem | hmem
    · exact hlog.approvers event hmem hreview
    · have hhuman := h.events event hmem
      rw [hreview] at hhuman
      exact absurd hhuman (by decide)

/-! ## Steps of employees -/

/-- An event of somebody else is no correction by the owner. -/
theorem not_ownCorrection {employee : Employee} (howner : some employee.id ≠ owner)
    (hactor : event.actor = employeeActor employee.id) : ¬ OwnCorrection owner event := by
  intro hevent
  obtain ⟨-, k, rfl, hk⟩ := hevent
  exact howner (congrArg some (employeeActor_injective (hactor.symm.trans hk)))

section Human

variable {session : Session} {employee : Employee} {now : Instant}
variable (hlog : FourEyes employees x log) (hloaded : session.Loaded employees)
variable (hemployee : getCurrentEmployee employees session = .ok employee)
variable (heditable : validateEditableStatus x.receipt = .ok ())

include hlog heditable in
/-- An editable receipt has not been approved by anybody. -/
theorem countP_approved_of_editable :
    log.countP (fun event => event.action = .reviewApproved) = 0 := by
  obtain ⟨status, hstatus, hnotApproved, -⟩ := some_status_of_editable heditable
  rw [hlog.approvals, hstatus, if_neg]
  simpa using hnotApproved

include hlog hloaded hemployee heditable

/-- A correction by the owner does not approve; a correction by somebody else is
made by a reviewer, and answers the corrections of the owner. -/
theorem FourEyes.corrected {corrections : FieldCorrections} {today : LocalDate}
    (hpermission : validateModifyPermission x.receipt employee = .ok ()) :
    FourEyes employees
      ⟨(ReceiptCommandService.corrected employee x.receipt.reread corrections today now).flushed,
        x.job⟩
      (log ++ [correctedEvent employee x.receipt.reread corrections today now]) where
  separate hopen := by
    obtain ⟨owner, howner, hown⟩ := validateModifyPermission_eq_ok.mp hpermission
    by_cases hself : some employee.id = x.receipt.ownerEmployeeId
    · exact ⟨_, rfl, correctedStatus_ne_autoApproved (.inr hself), correctedStatus_ne_approved⟩
    · have hrole : employee.role ≠ .employee := by
        intro hrole
        rw [howner] at hself
        exact hself (congrArg some (hown hrole).1)
      refine absurd hopen (not_unanswered_concat ⟨.inl rfl, ?_⟩ (not_ownCorrection hself rfl))
      exact byOtherReviewer_of_session hloaded hemployee hrole hself rfl
  approvals := by
    rw [List.countP_append, countP_approved_of_editable hlog heditable, if_neg]
    · rfl
    · intro happroved
      exact correctedStatus_ne_approved (Option.some.inj happroved)
  approvers event hmem hreview := by
    rcases List.mem_append.mp hmem with hmem | hmem
    · exact hlog.approvers event hmem hreview
    · rw [List.mem_singleton.mp hmem] at hreview
      cases hreview

/-- A decision is taken by a reviewer who is not the owner. -/
theorem FourEyes.decided {decision : ReviewDecision} {note : Option JString}
    (hpermission : validateReviewPermission x.receipt employee = .ok ()) :
    FourEyes employees
      ⟨(x.receipt.reread.changeStatus (decidedStatus decision) now).flushed, x.job⟩
      (log ++ [decidedEvent employee x.receipt decision note now]) := by
  obtain ⟨hrole, owner, howner, hother⟩ := validateReviewPermission_eq_ok.mp hpermission
  have hself : some employee.id ≠ x.receipt.ownerEmployeeId := by
    rw [howner]
    exact fun hself => hother (Option.some.inj hself)
  have hreviewer : ∀ event : AuditEvent, event.actor = employeeActor employee.id →
      ByOtherReviewer employees x.receipt.ownerEmployeeId event :=
    fun event hactor => byOtherReviewer_of_session hloaded hemployee hrole hself hactor
  have hnone := countP_approved_of_editable hlog heditable
  refine ⟨fun hopen => ?_, ?_, fun event hmem hreview => ?_⟩
  · cases decision with
    | approve =>
        exact absurd hopen
          (not_unanswered_concat ⟨.inr rfl, hreviewer _ rfl⟩ (not_ownCorrection hself rfl))
    | reject => exact ⟨.rejected, rfl, by simp, by simp⟩
  · rw [List.countP_append, hnone]
    cases decision <;> rfl
  · rcases List.mem_append.mp hmem with hmem | hmem
    · exact hlog.approvers event hmem hreview
    · rw [List.mem_singleton.mp hmem]
      exact hreviewer _ rfl

end Human

/-- One step keeps corrections and approvals apart. -/
theorem ReceiptCase.Step.fourEyes (h : Step employees operation x events x')
    (hpermitted : operation.Permitted P employees) (hx : x.Consistent)
    (hlog : FourEyes employees x log) : FourEyes employees x' (log ++ events) := by
  have howner : x'.receipt.ownerEmployeeId = x.receipt.ownerEmployeeId :=
    h.sameReceipt.ownerEmployeeId
  have hmachine := h.unattended hx
  cases h with
  | corrected hemployee hpermission _ heditable =>
      exact hlog.corrected hpermitted hemployee heditable hpermission
  | decided hemployee hpermission _ heditable _ =>
      exact hlog.decided hpermitted hemployee heditable hpermission
  | _ => exact hlog.unattended (hmachine rfl) howner

theorem ReceiptCase.Reaches.fourEyes (h : Reaches P employees x log) :
    FourEyes employees x log := by
  induction h with
  | created hpermitted =>
      obtain ⟨call, contentType, now, rfl, -, rfl⟩ := hpermitted
      refine ⟨fun hopen => ?_, rfl, ?_⟩
      · refine absurd hopen (not_unanswered_of_forall ?_)
        simp [OwnCorrection, AuditEvent.attachTo, ReceiptUploadService.uploadedEvent]
      · simp [AuditEvent.attachTo, ReceiptUploadService.uploadedEvent]
  | step hreaches hpermitted hstep ih => exact hstep.fourEyes hpermitted hreaches.consistent ih

/-! ## Whole runs -/

/-- The four-eyes law: in every reachable state, behind the owner's last
correction of an approved receipt stands a correction or approval by a reviewer
or administrator other than the owner, and a receipt that was approved by a
decision has exactly one approval, by such a reviewer. -/
theorem four_eyes (hrun : Run P employees trace) {id : Long} {receipt : Receipt}
    (hreceipt : (current employees trace).receiptRow id = some receipt) :
    (receipt.status = some .autoApproved ∨ receipt.status = some .approved →
      ∀ before event after,
        eventsFor id (current employees trace).auditEvents = before ++ event :: after →
        OwnCorrection receipt.ownerEmployeeId event →
        ∃ later ∈ after, OtherReview employees receipt.ownerEmployeeId later) ∧
    (receipt.status = some .approved →
      (eventsFor id (current employees trace).auditEvents).countP
        (fun event => event.action = .reviewApproved) = 1 ∧
      ∀ event ∈ eventsFor id (current employees trace).auditEvents,
        event.action = .reviewApproved →
        ByOtherReviewer employees receipt.ownerEmployeeId event) := by
  obtain ⟨x, hx, rfl⟩ := hrun.current_refines.paired.of_receipt hreceipt
  have hlaw := (hrun.current_refines.reaches hx).fourEyes
  rw [Database.id_of_receiptRow hreceipt] at hlaw
  refine ⟨fun happroved before event after hlog hown => ?_, fun happroved => ⟨?_, hlaw.approvers⟩⟩
  · refine exists_answer (fun hopen => ?_) hlog hown
    obtain ⟨status, hstatus, hauto, hnot⟩ := hlaw.separate hopen
    rw [hstatus, Option.some.injEq, Option.some.injEq] at happroved
    exact happroved.elim hauto hnot
  · rw [hlaw.approvals, if_pos happroved]

open Sample in
/-- The correction by the owner is answered by the approval, after the duplicate. -/
theorem reviewedTrace_answered :
    ∃ later ∈ (eventsFor 1 (current staff reviewedTrace).auditEvents).drop 4,
      OtherReview staff (some 1) later := by
  have hreceipt : (current staff reviewedTrace).receiptRow 1 = some _ := rfl
  exact (four_eyes reviewedTrace_run hreceipt).1 (.inr rfl) _ _ _
    (List.take_append_drop 3 _).symm ⟨rfl, 1, rfl, rfl⟩

end ReceiptReview
