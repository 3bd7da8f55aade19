import ReceiptReview.Results.Finality

/-!
# The access policy

The policy for corrections and decisions, read off the audit log: who may cause
which event, on which status, with which effect.  Every event of an employee is
recorded by the transaction that has made the checks, so the policy of the log
is the policy of the three guards (`Complies`).
-/

namespace ReceiptReview

open Java Store ReceiptCase ReceiptCommandService ReceiptPersistenceService CurrentEmployeeService

variable {P : Platform} {employees : Table Employee} {trace : List Commit} {commit : Commit}
variable {operation : Operation} {x x' : ReceiptCase} {events log : List AuditEvent}

/-! ## Events of employees -/

/-- The actions that are recorded for an employee who changes a receipt. -/
def AuditAction.isHuman : AuditAction → Bool
  | fieldsCorrected | reviewApproved | reviewRejected => true
  | _ => false

theorem eq_of_natRepr {m n : ℕ} (h : m.repr = n.repr) : m = n := by
  have hdigits : Nat.toDigits 10 m = Nat.toDigits 10 n := by
    rw [← Nat.toList_repr, ← Nat.toList_repr, h]
  calc m
      = Nat.ofDigitChars 10 (Nat.toDigits 10 m) 0 := Nat.ofDigitChars_ten_toDigits.symm
    _ = Nat.ofDigitChars 10 (Nat.toDigits 10 n) 0 := by rw [hdigits]
    _ = n := Nat.ofDigitChars_ten_toDigits

theorem natRepr_ne_minus (m n : ℕ) : m.repr ≠ "-" ++ n.repr := by
  intro h
  have hminus : '-' ∈ Nat.toDigits 10 m := by
    rw [← Nat.toList_repr, h]
    simp
  exact absurd (Nat.isDigit_of_mem_toDigits (by omega) (by omega) hminus) (by decide)

/-- A decimal shows one number. -/
theorem eq_of_intRepr {a b : ℤ} (h : a.repr = b.repr) : a = b := by
  rw [Int.repr_eq_if, Int.repr_eq_if] at h
  split at h <;> split at h
  · have := eq_of_natRepr h
    omega
  · exact absurd h (natRepr_ne_minus _ _)
  · exact absurd h.symm (natRepr_ne_minus _ _)
  · have := eq_of_natRepr ((String.append_right_inj _).mp h)
    omega

theorem employeeActor_injective : Function.Injective employeeActor := by
  intro a b h
  have hrepr : toString a = toString b := (String.append_right_inj _).mp h
  exact eq_of_intRepr hrepr

/-- What the policy asks of an event that employee `k`, with this role, has
caused on a receipt of `owner`. -/
structure AuditEvent.Complies (event : AuditEvent) (owner k : Long) (role : EmployeeRole) :
    Prop where
  previous : ∃ status, event.previousStatus = some status ∧ status ≠ .approved ∧ status ≠ .rejected
  employee : role = .employee → event.action = .fieldsCorrected ∧ k = owner ∧
    ∃ status ∈ [ReceiptStatus.needsReview, .needsRecapture, .unreadable, .manualEntry],
      event.previousStatus = some status
  correction : event.action = .fieldsCorrected → role = .employee ∨ k = owner →
    event.newStatus ≠ some .autoApproved
  review : event.action ≠ .fieldsCorrected → k ≠ owner ∧ role ≠ .employee

/-- The event was caused by an employee of the table, on a receipt that has an
owner, and as the policy asks. -/
def AuditEvent.Lawful (employees : Table Employee) (receipt : Receipt) (event : AuditEvent) :
    Prop :=
  ∃ owner employee, receipt.ownerEmployeeId = some owner ∧
    employees.find? employee.id = some employee ∧ event.actor = employeeActor employee.id ∧
    event.Complies owner employee.id employee.role

theorem lawful_correctedEvent {session : Session} {employee : Employee} {receipt : Receipt}
    {corrections : FieldCorrections} {today : LocalDate} {now : Instant}
    (hloaded : session.Loaded employees)
    (hemployee : getCurrentEmployee employees session = .ok employee)
    (hpermission : validateModifyPermission receipt employee = .ok ())
    (heditable : validateEditableStatus receipt = .ok ()) :
    (correctedEvent employee receipt corrections today now).Lawful employees receipt := by
  obtain ⟨owner, howner, hown⟩ := validateModifyPermission_eq_ok.mp hpermission
  obtain ⟨stored, hstored, hrole⟩ := find?_of_getCurrentEmployee hloaded hemployee
  have hid : stored.id = employee.id := Table.key_of_find? hstored
  refine ⟨owner, stored, howner, hid ▸ hstored, by rw [hid]; rfl, ?_⟩
  rw [hid, hrole]
  refine ⟨some_status_of_editable heditable, fun hemployee => ⟨rfl, hown hemployee⟩, ?_, ?_⟩
  · intro _ hrestricted
    have hrestricted' : employee.role = .employee ∨ some employee.id = receipt.ownerEmployeeId :=
      hrestricted.imp_right fun howns => by rw [howner, howns]
    exact fun hauto => correctedStatus_ne_autoApproved hrestricted' (Option.some.inj hauto)
  · exact fun hreview => absurd rfl hreview

theorem lawful_decidedEvent {session : Session} {employee : Employee} {receipt : Receipt}
    {decision : ReviewDecision} {note : Option JString} {now : Instant}
    (hloaded : session.Loaded employees)
    (hemployee : getCurrentEmployee employees session = .ok employee)
    (hpermission : validateReviewPermission receipt employee = .ok ())
    (heditable : validateEditableStatus receipt = .ok ()) :
    (decidedEvent employee receipt decision note now).Lawful employees receipt := by
  obtain ⟨hreviewer, owner, howner, hother⟩ := validateReviewPermission_eq_ok.mp hpermission
  obtain ⟨stored, hstored, hrole⟩ := find?_of_getCurrentEmployee hloaded hemployee
  have hid : stored.id = employee.id := Table.key_of_find? hstored
  have haction : decidedAction decision ≠ .fieldsCorrected := by
    cases decision <;> simp [decidedAction]
  refine ⟨owner, stored, howner, hid ▸ hstored, by rw [hid]; rfl, ?_⟩
  rw [hid, hrole]
  exact ⟨some_status_of_editable heditable, fun hemployee => absurd hemployee hreviewer,
    fun hcorrection => absurd hcorrection haction, fun _ => ⟨hother, hreviewer⟩⟩

theorem ReceiptCase.Step.owner_of_edits (h : Step employees operation x events x') {id : Long}
    (hedits : operation.edits = some id) : ∃ owner, x.receipt.ownerEmployeeId = some owner := by
  cases h with
  | corrected _ hpermission =>
      obtain ⟨owner, howner, -⟩ := validateModifyPermission_eq_ok.mp hpermission
      exact ⟨owner, howner⟩
  | decided _ hpermission =>
      obtain ⟨-, owner, howner, -⟩ := validateReviewPermission_eq_ok.mp hpermission
      exact ⟨owner, howner⟩
  | _ => cases hedits

/-- The events of employees that a step records are lawful. -/
theorem ReceiptCase.Step.lawful (h : Step employees operation x events x')
    (hpermitted : operation.Permitted P employees) :
    ∀ event ∈ events, event.action.isHuman = true → event.Lawful employees x.receipt := by
  intro event hmem hhuman
  cases h with
  | claimed _ hactions | recovered _ hactions =>
      rw [hactions event hmem] at hhuman
      exact absurd hhuman (by simp [AuditAction.isHuman])
  | @corrected _ _ _ corrections today now employee hemployee hpermission _ heditable =>
      rw [List.mem_singleton.mp hmem]
      have hread : (correctedEvent employee x.receipt.reread corrections today now).Lawful employees
          x.receipt.reread :=
        lawful_correctedEvent hpermitted hemployee hpermission heditable
      exact hread
  | decided hemployee hpermission _ heditable =>
      rw [List.mem_singleton.mp hmem]
      exact lawful_decidedEvent hpermitted hemployee hpermission heditable
  | released => exact absurd hmem (by simp)
  | extracted =>
      rcases List.mem_cons.mp hmem with rfl | hmem
      · exact absurd hhuman (by simp [systemEvent, AuditAction.isHuman])
      · rw [List.mem_singleton.mp hmem] at hhuman
        exact absurd hhuman (by simp [systemEvent, AuditAction.isHuman])
  | qualityRejected | retryScheduled | failed | duplicateDeferred | duplicateMarked =>
      rw [List.mem_singleton.mp hmem] at hhuman
      exact absurd hhuman
        (by simp [systemEvent, deferredEvent, duplicateEvent, AuditAction.isHuman])

theorem AuditEvent.Lawful.sameReceipt {receipt receipt' : Receipt} {event : AuditEvent}
    (h : event.Lawful employees receipt) (hsame : SameReceipt receipt receipt') :
    event.Lawful employees receipt' := by
  obtain ⟨owner, employee, howner, hrest⟩ := h
  exact ⟨owner, employee, hsame.ownerEmployeeId.trans howner, hrest⟩

/-- All events of employees in the log of a case are lawful. -/
theorem ReceiptCase.Reaches.lawful (h : Reaches P employees x log) :
    ∀ event ∈ log, event.action.isHuman = true → event.Lawful employees x.receipt := by
  induction h with
  | created hpermitted =>
      obtain ⟨call, contentType, now, -, -, rfl⟩ := hpermitted
      intro event hmem hhuman
      rw [List.mem_singleton.mp hmem] at hhuman
      exact absurd hhuman (by simp [AuditEvent.attachTo, ReceiptUploadService.uploadedEvent,
        AuditAction.isHuman])
  | step _ hpermitted hstep ih =>
      intro event hmem hhuman
      rcases List.mem_append.mp hmem with hmem | hmem
      · exact (ih event hmem hhuman).sameReceipt hstep.sameReceipt
      · exact (hstep.lawful hpermitted event hmem hhuman).sameReceipt hstep.sameReceipt

/-! ## Whole runs -/

/-- Every operation of an employee was committed on a receipt that has an owner. -/
theorem Run.owner_of_edits (h : Run P employees trace) {id : Long} (hmem : commit ∈ trace)
    (hedits : commit.operation.edits = some id) :
    ∃ receipt owner, (current employees trace).receiptRow id = some receipt ∧
      receipt.ownerEmployeeId = some owner := by
  obtain ⟨later, earlier, rfl⟩ := List.append_of_mem hmem
  have hsuffix : commit :: earlier <:+ later ++ commit :: earlier := List.suffix_append ..
  obtain ⟨x, x', hx, hid, hx', hstep⟩ := (h.suffix hsuffix).step_of_edits hedits
  obtain ⟨owner, howner⟩ := hstep.owner_of_edits hedits
  obtain ⟨y, hy, hevolves⟩ := h.evolves hsuffix hx'
  have hsame := hstep.sameReceipt.trans hevolves.sameReceipt
  refine ⟨y.receipt, owner, ?_, hsame.ownerEmployeeId.trans howner⟩
  rw [← hid, ← hsame.id]
  exact hy.receipt

/-- The access policy holds over runs: every event of an employee in the audit
log complies with it, an operation of an employee is committed only on a receipt
that has an owner, and no operation changes the owner of a receipt. -/
theorem access_policy (hrun : Run P employees trace) :
    (∀ event ∈ (current employees trace).auditEvents, event.action.isHuman = true →
      ∃ receipt owner, (current employees trace).receiptRow event.receiptId = some receipt ∧
        receipt.ownerEmployeeId = some owner ∧ (∃ k, event.actor = employeeActor k) ∧
        ∀ k, event.actor = employeeActor k → ∃ employee, employees.find? k = some employee ∧
          event.Complies owner k employee.role) ∧
    (∀ commit ∈ trace, ∀ id, commit.operation.edits = some id →
      ∃ receipt owner, (current employees trace).receiptRow id = some receipt ∧
        receipt.ownerEmployeeId = some owner) ∧
    (∀ earlier, earlier <:+ trace → ∀ id receipt,
      (current employees earlier).receiptRow id = some receipt →
      ∃ receipt', (current employees trace).receiptRow id = some receipt' ∧
        receipt'.ownerEmployeeId = receipt.ownerEmployeeId) := by
  refine ⟨?_, ?_, ?_⟩
  · intro event hmem hhuman
    obtain ⟨x, hx, hid⟩ := hrun.current_refines.audited event hmem
    have hlog : event ∈ eventsFor x.receipt.id (current employees trace).auditEvents := by
      simp [eventsFor, hmem, hid]
    obtain ⟨owner, employee, howner, hstored, hactor, hcomplies⟩ :=
      (hrun.current_refines.reaches hx).lawful event hlog hhuman
    refine ⟨x.receipt, owner, hid ▸ hx.receipt, howner, ⟨_, hactor⟩, fun k hk => ?_⟩
    obtain rfl := employeeActor_injective (hactor.symm.trans hk)
    exact ⟨employee, hstored, hcomplies⟩
  · exact fun commit hmem id hedits => hrun.owner_of_edits hmem hedits
  · intro earlier hearlier id receipt hreceipt
    obtain ⟨receipt', hreceipt', hsame⟩ := hrun.stored_later hearlier hreceipt
    exact ⟨receipt', hreceipt', hsame.ownerEmployeeId⟩

/-! ## A run with a correction by the owner -/

namespace Sample

/-- The owner enters the fields after a failed extraction, the image is
submitted again, and a reviewer approves. -/
def reviewedOperations : List Operation :=
  [intakeOf (uploadOf "key-1" imageA) 1 1 0,
    claimAll 1 "token",
    .failExtraction (firstClaim 1 "token") (.ofString "MISSING_API_KEY") none 2,
    .correctFields (login 1 "submitter") 1 1 goodFields 0 3,
    .markDuplicate 1 4 0,
    .decide (login 2 "reviewer") 1 3 .approve none 5]

def reviewedTrace : List Commit := (replay platform staff [] reviewedOperations).getD []

theorem reviewedTrace_run : Run platform staff reviewedTrace := by
  refine run_of_replay reviewedOperations .nil ?_ rfl
  simp only [reviewedOperations, List.forall_mem_cons]
  exact ⟨intakeOf_permitted .., trivial, trivial, login_loaded _ _, trivial, login_loaded _ _,
    by simp⟩

end Sample

open Sample in
/-- The approval by the reviewer complies with the policy. -/
theorem reviewedTrace_complies :
    ∃ event ∈ (current staff reviewedTrace).auditEvents, event.action = .reviewApproved ∧
      ∃ owner employee, staff.find? 2 = some employee ∧ event.Complies owner 2 employee.role := by
  have happroval : ∃ event ∈ (current staff reviewedTrace).auditEvents,
      event.action = .reviewApproved ∧ event.actor = employeeActor 2 := by
    decide +kernel
  obtain ⟨event, hmem, haction, hactor⟩ := happroval
  obtain ⟨_, owner, -, -, -, hpolicy⟩ :=
    (access_policy reviewedTrace_run).1 event hmem (by rw [haction]; rfl)
  obtain ⟨employee, hstored, hcomplies⟩ := hpolicy 2 hactor
  exact ⟨event, hmem, haction, owner, employee, hstored, hcomplies⟩

end ReceiptReview
