import ReceiptReview.Model.Database
import ReceiptReview.Model.Validation
import ReceiptReview.Program.Outcome

/-!
# Corrections and decisions

`ReceiptCommandService`: the two transactions by which employees change a
receipt.  The guards stand in the order of the source, since the order decides
which exception a caller sees.
-/

namespace ReceiptReview

open Java Store Outcome

/-! ## Field corrections -/

structure FieldCorrections where
  shopName : Option JString
  date : Option LocalDate
  totalAmount : Option BigDecimal
  businessRegistrationNumber : Option JString
  paymentMethod : Option JString
  lineItems : Option (List LineItem)
  clearFields : List String
  deriving DecidableEq, Repr

namespace FieldCorrections

/-- The value of one field: cleared, else replaced when a value was sent. -/
def corrected {α : Type} (corrections : FieldCorrections) (field : String)
    (sent current : Option α) : Option α :=
  if corrections.clearFields.contains field then none else sent <|> current

def applyTo (corrections : FieldCorrections) (current : Option ReceiptData) : ReceiptData :=
  let base := current.getD .blank
  .of (corrections.corrected "shopName" corrections.shopName base.shopName)
    (corrections.corrected "date" corrections.date base.date)
    (corrections.corrected "totalAmount" corrections.totalAmount base.totalAmount)
    (corrections.corrected "businessRegistrationNumber" corrections.businessRegistrationNumber
      base.businessRegistrationNumber)
    (corrections.corrected "paymentMethod" corrections.paymentMethod base.paymentMethod)
    (if corrections.clearFields.contains "lineItems" then some []
    else corrections.lineItems <|> some base.lineItems)

end FieldCorrections

namespace ReceiptCommandService

open CurrentEmployeeService ValidationEngine ReceiptStatusRouter

def CLEARABLE_FIELDS : List String :=
  ["shopName", "date", "totalAmount", "businessRegistrationNumber", "paymentMethod", "lineItems"]

def EMPLOYEE_EDITABLE_STATUSES : List ReceiptStatus :=
  [.needsReview, .needsRecapture, .unreadable, .manualEntry]

def findReceipt (db : Database) (id : Long) : Except Failure Receipt :=
  orElseThrow (db.findReceipt id) (.receiptNotFound id)

/-! ## Guards -/

def validateModifyPermission (receipt : Receipt) (employee : Employee) : Except Failure Unit :=
  match receipt.ownerEmployeeId with
  | none =>
      if employee.role ≠ .admin then .error (.receiptNotFound receipt.id)
      else .error (.receiptConflict "소유자가 없는 영수증은 수정할 수 없습니다.")
  | some owner =>
      if employee.role ≠ .employee then .ok ()
      else if employee.id ≠ owner then .error (.receiptNotFound receipt.id)
      else if receipt.status.any EMPLOYEE_EDITABLE_STATUSES.contains then .ok ()
      else .error (.receiptConflict "이 상태의 영수증은 직원이 수정할 수 없습니다.")

def validateReviewPermission (receipt : Receipt) (employee : Employee) : Except Failure Unit := do
  throwIf (employee.role = .employee) (.accessDenied "검토 권한이 필요합니다.")
  validateModifyPermission receipt employee
  throwIf (some employee.id = receipt.ownerEmployeeId)
    (.accessDenied "본인이 제출한 영수증은 승인하거나 반려할 수 없습니다.")

def ensureVersion (receipt : Receipt) (expectedVersion : ℤ) : Except Failure Unit :=
  throwIf (receipt.version ≠ expectedVersion)
    (.receiptConflict "다른 검수자가 먼저 변경했습니다. 최신 영수증을 다시 조회하세요.")

def validateEditableStatus (receipt : Receipt) : Except Failure Unit :=
  match receipt.status with
  | none => .error (.receiptConflict "AI 추출 작업이 완료된 뒤 검수할 수 있습니다.")
  | some .approved | some .rejected =>
      .error (.receiptConflict "이미 최종 처리된 영수증은 변경할 수 없습니다.")
  | some _ => .ok ()

def validateApproval (receipt : Receipt) : Except Failure Unit :=
  if receipt.status = some .needsRecapture ∨ receipt.status = some .unreadable then
    .error (.receiptConflict "재촬영 또는 판독 불가 상태는 필드를 보완한 뒤 승인할 수 있습니다.")
  else
    match receipt.currentData with
    | none => .error (.receiptConflict "승인하려면 상호명, 사용일, 총 금액을 먼저 입력해 주세요.")
    | some data =>
        if data.shopName.all JString.isBlank then
          .error (.receiptConflict "승인하려면 상호명을 입력해 주세요.")
        else if data.date.isNone then
          .error (.receiptConflict "승인하려면 사용일을 입력해 주세요.")
        else if data.totalAmount.all (·.signum ≤ 0) then
          .error (.receiptConflict "승인하려면 총 금액을 0보다 크게 입력해 주세요.")
        else .ok ()

/-! ## Transactions -/

/-- The event that an employee causes. -/
def employeeEvent (employee : Employee) (receiptId : Long) (occurredAt : Instant)
    (action : AuditAction) (previousStatus newStatus : Option ReceiptStatus)
    (details : List (String × Detail)) : AuditEvent where
  receiptId := receiptId
  occurredAt := occurredAt
  actor := employeeActor employee.id
  action := action
  previousStatus := previousStatus
  newStatus := newStatus
  details := details

def createCorrectionDetails (before : Option ReceiptData) (after : ReceiptData)
    (results : List RuleResult) : List (String × Detail) :=
  (before.map fun before => ("before", Detail.data before)).toList ++
    [("after", .data after), ("rules", .rules results)]

def createDecisionDetails (note : Option JString) : List (String × Detail) :=
  (note.map fun note => ("note", Detail.text note)).toList

/-- The status of a corrected receipt: corrections by an employee and of one's
own receipt need another reviewer even when all rules pass. -/
def correctedStatus (employee : Employee) (receipt : Receipt) (after : ReceiptData)
    (results : List RuleResult) : ReceiptStatus :=
  let nextStatus := route (some after) results
  if nextStatus = .autoApproved ∧
      (employee.role = .employee ∨ some employee.id = receipt.ownerEmployeeId) then .needsReview
  else nextStatus

/-- The corrected receipt; a duplicate is known from the stored results. -/
def corrected (employee : Employee) (receipt : Receipt) (corrections : FieldCorrections)
    (today : LocalDate) (now : Instant) : Receipt :=
  let after := corrections.applyTo receipt.currentData
  let duplicate := duplicateFailed receipt.ruleResults
  let results := validate today (some after) duplicate
  receipt.updateData (some after) results (correctedStatus employee receipt after results) now

def correctedEvent (employee : Employee) (receipt : Receipt) (corrections : FieldCorrections)
    (today : LocalDate) (now : Instant) : AuditEvent :=
  let next := corrected employee receipt corrections today now
  employeeEvent employee receipt.id now .fieldsCorrected receipt.status next.status
    (createCorrectionDetails receipt.currentData (corrections.applyTo receipt.currentData)
      next.ruleResults)

def correctFields (db : Database) (session : Session) (receiptId : Long) (expectedVersion : ℤ)
    (corrections : FieldCorrections) (today : LocalDate) (now : Instant) :
    Except Failure (Receipt × Database.Changes) := do
  throwIf (¬ corrections.clearFields.all CLEARABLE_FIELDS.contains)
    (.illegalArgument "지원하지 않는 clearFields 값이 포함되어 있습니다.")
  let employee ← getCurrentEmployee db.employees session
  let receipt ← findReceipt db receiptId
  validateModifyPermission receipt employee
  ensureVersion receipt expectedVersion
  validateEditableStatus receipt
  let next := corrected employee receipt corrections today now
  return (next.flushed, {
    receipts := [next]
    events := [correctedEvent employee receipt corrections today now] })

def decidedStatus : ReviewDecision → ReceiptStatus
  | .approve => .approved
  | .reject => .rejected

def decidedAction : ReviewDecision → AuditAction
  | .approve => .reviewApproved
  | .reject => .reviewRejected

def decidedEvent (employee : Employee) (receipt : Receipt) (decision : ReviewDecision)
    (note : Option JString) (now : Instant) : AuditEvent :=
  employeeEvent employee receipt.id now (decidedAction decision) receipt.status
    (some (decidedStatus decision)) (createDecisionDetails note)

def decide (db : Database) (session : Session) (receiptId : Long) (expectedVersion : ℤ)
    (decision : ReviewDecision) (note : Option JString) (now : Instant) :
    Except Failure (Receipt × Database.Changes) := do
  let employee ← getCurrentEmployee db.employees session
  -- the lookup stands before the check of the role
  let receipt ← findReceipt db receiptId
  validateReviewPermission receipt employee
  ensureVersion receipt expectedVersion
  validateEditableStatus receipt
  -- a receipt may be rejected without readable content
  (if decision = .approve then validateApproval receipt else .ok ())
  let next := receipt.changeStatus (decidedStatus decision) now
  return (next.flushed, {
    receipts := [next]
    events := [decidedEvent employee receipt decision note now] })

/-! ## What a successful call has checked -/

theorem validateModifyPermission_eq_ok {receipt : Receipt} {employee : Employee} :
    validateModifyPermission receipt employee = .ok () ↔
      ∃ owner, receipt.ownerEmployeeId = some owner ∧ (employee.role = .employee →
        employee.id = owner ∧
          ∃ status ∈ EMPLOYEE_EDITABLE_STATUSES, receipt.status = some status) := by
  unfold validateModifyPermission
  cases receipt.ownerEmployeeId with
  | none => by_cases hadmin : employee.role = .admin <;> simp [hadmin]
  | some owner =>
      by_cases hrole : employee.role = .employee
      · by_cases howner : employee.id = owner
        · cases receipt.status <;> simp [hrole, howner]
        · simp [hrole, howner]
      · simp [hrole]

theorem validateReviewPermission_eq_ok {receipt : Receipt} {employee : Employee} :
    validateReviewPermission receipt employee = .ok () ↔
      employee.role ≠ .employee ∧
        ∃ owner, receipt.ownerEmployeeId = some owner ∧ employee.id ≠ owner := by
  simp only [validateReviewPermission, bind_eq_ok, throwIf_eq_ok]
  constructor
  · rintro ⟨-, hrole, ⟨⟩, hmodify, hother⟩
    obtain ⟨owner, howner, -⟩ := validateModifyPermission_eq_ok.mp hmodify
    rw [howner, Option.some.injEq] at hother
    exact ⟨hrole, owner, howner, hother⟩
  · rintro ⟨hrole, owner, howner, hother⟩
    refine ⟨(), hrole, (), validateModifyPermission_eq_ok.mpr ⟨owner, howner, ?_⟩, ?_⟩
    · exact fun hemployee => absurd hemployee hrole
    · rwa [howner, Option.some.injEq]

theorem validateApproval_eq_ok {receipt : Receipt} (h : validateApproval receipt = .ok ()) :
    receipt.status ≠ some .needsRecapture ∧ receipt.status ≠ some .unreadable ∧
      ∃ data, receipt.currentData = some data ∧
        (∃ shopName, data.shopName = some shopName ∧ shopName.isBlank = false) ∧
        (∃ date, data.date = some date) ∧
        ∃ totalAmount, data.totalAmount = some totalAmount ∧ 0 < totalAmount.signum := by
  unfold validateApproval at h
  split at h
  · exact absurd h (by simp)
  · rename_i hstatus
    rw [not_or] at hstatus
    refine ⟨hstatus.1, hstatus.2, ?_⟩
    split at h
    · exact absurd h (by simp)
    · rename_i data hdata
      refine ⟨data, hdata, ?_⟩
      split at h
      · exact absurd h (by simp)
      · rename_i hname
        split at h
        · exact absurd h (by simp)
        · rename_i hdate
          split at h
          · exact absurd h (by simp)
          · rename_i hamount
            simp only [Option.all_eq_true, not_forall, Bool.not_eq_true] at hname
            simp only [Option.all_eq_true, decide_eq_true_eq, not_forall] at hamount
            obtain ⟨shopName, hsome, hblank⟩ := hname
            obtain ⟨totalAmount, htotal, hpositive⟩ := hamount
            refine ⟨⟨shopName, hsome, hblank⟩, ?_, totalAmount, htotal, by omega⟩
            cases hdateValue : data.date with
            | none => exact absurd (by rw [hdateValue]; rfl) hdate
            | some date => exact ⟨date, rfl⟩

/-- An employee, and whoever corrects an own receipt, does not approve it by the correction. -/
theorem correctedStatus_ne_autoApproved {employee : Employee} {receipt : Receipt}
    {after : ReceiptData} {results : List RuleResult}
    (h : employee.role = .employee ∨ some employee.id = receipt.ownerEmployeeId) :
    correctedStatus employee receipt after results ≠ .autoApproved := by
  unfold correctedStatus
  by_cases hroute : route (some after) results = .autoApproved <;> simp [hroute, h]

/-- A correction takes no decision. -/
theorem correctedStatus_ne_approved {employee : Employee} {receipt : Receipt}
    {after : ReceiptData} {results : List RuleResult} :
    correctedStatus employee receipt after results ≠ .approved := by
  unfold correctedStatus
  simp only
  split
  · simp
  · exact route_ne_approved

variable {db : Database} {session : Session} {receiptId : Long} {expectedVersion : ℤ}
variable {result : Receipt} {changes : Database.Changes}

theorem correctFields_eq_ok {corrections : FieldCorrections} {today : LocalDate} {now : Instant}
    (h : correctFields db session receiptId expectedVersion corrections today now =
      .ok (result, changes)) :
    ∃ employee row, getCurrentEmployee db.employees session = .ok employee ∧
      db.receiptRow receiptId = some row ∧
      validateModifyPermission row employee = .ok () ∧
      ensureVersion row expectedVersion = .ok () ∧
      validateEditableStatus row = .ok () ∧
      result = (corrected employee row.reread corrections today now).flushed ∧
      changes = {
        receipts := [corrected employee row.reread corrections today now]
        events := [correctedEvent employee row.reread corrections today now] } := by
  simp only [correctFields, bind_eq_ok, findReceipt, orElseThrow_eq_ok,
    Database.findReceipt_eq_some, pure_eq_ok] at h
  obtain ⟨_, -, employee, hemployee, _, ⟨row, hrow, rfl⟩, _, hpermission, _, hversion, _, hstatus,
    h⟩ := h
  obtain ⟨rfl, rfl⟩ := Prod.mk.inj h
  exact ⟨employee, row, hemployee, hrow, hpermission, hversion, hstatus, rfl, rfl⟩

theorem decide_eq_ok {decision : ReviewDecision} {note : Option JString} {now : Instant}
    (h : ReceiptCommandService.decide db session receiptId expectedVersion decision note now =
      .ok (result, changes)) :
    ∃ employee row, getCurrentEmployee db.employees session = .ok employee ∧
      db.receiptRow receiptId = some row ∧
      validateReviewPermission row employee = .ok () ∧
      ensureVersion row expectedVersion = .ok () ∧
      validateEditableStatus row = .ok () ∧
      (decision = .approve → validateApproval row.reread = .ok ()) ∧
      result = (row.reread.changeStatus (decidedStatus decision) now).flushed ∧
      changes = {
        receipts := [row.reread.changeStatus (decidedStatus decision) now]
        events := [decidedEvent employee row decision note now] } := by
  simp only [ReceiptCommandService.decide, bind_eq_ok, findReceipt, orElseThrow_eq_ok,
    Database.findReceipt_eq_some, pure_eq_ok] at h
  obtain ⟨employee, hemployee, _, ⟨row, hrow, rfl⟩, _, hpermission, _, hversion, _, hstatus, _,
    happroval, h⟩ := h
  obtain ⟨rfl, rfl⟩ := Prod.mk.inj h
  refine ⟨employee, row, hemployee, hrow, hpermission, hversion, hstatus, ?_, rfl, rfl⟩
  intro happrove
  simpa [happrove] using happroval

end ReceiptCommandService

end ReceiptReview
