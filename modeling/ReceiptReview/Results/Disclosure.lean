import ReceiptReview.Service.Query
import ReceiptReview.System.Replay

/-!
# Existence of other receipts

What an employee learns from a call on a receipt that is not the employee's own.
Reading and correcting answer as if the receipt did not exist.  A decision does
not: the role of the caller is checked after the lookup and before the
ownership, so an existing receipt is denied and a missing one is not found.
-/

namespace ReceiptReview

open Java Store Outcome CurrentEmployeeService ReceiptCommandService ReceiptQueryService
open ReceiptImageService ReceiptController

variable {P : Platform} {load : JString → Except Failure (List UInt8)} {db db' : Database}
variable {session : Session} {employee : Employee} {today : LocalDate} {now : Instant}
variable {receiptId : Long} {call : ReceiptCall}

/-- No receipt of the employee has this id. -/
def Database.NotOwned (db : Database) (employee : Employee) (receiptId : Long) : Prop :=
  ∀ receipt, db.receiptRow receiptId = some receipt →
    receipt.ownerEmployeeId ≠ some employee.id

namespace ReceiptController.ReceiptCall

def isDecision : ReceiptCall → Bool
  | decide .. => true
  | _ => false

/-- How a call on a missing receipt fails. -/
def refusal (receiptId : Long) : ReceiptCall → Failure
  | correctFields _ corrections =>
      if corrections.clearFields.all CLEARABLE_FIELDS.contains then .receiptNotFound receiptId
      else .illegalArgument "지원하지 않는 clearFields 값이 포함되어 있습니다."
  | _ => .receiptNotFound receiptId

end ReceiptController.ReceiptCall

/-! ## Guards -/

section Guards

variable {receipt : Receipt} (hrole : employee.role = .employee)
variable (hother : receipt.ownerEmployeeId ≠ some employee.id)

include hrole hother

theorem validateReadPermission_of_not_owned :
    validateReadPermission receipt employee = .error (.receiptNotFound receipt.id) := by
  unfold validateReadPermission
  cases howner : receipt.ownerEmployeeId with
  | none => simp [hrole]
  | some owner =>
      have hne : employee.id ≠ owner := by
        rintro rfl
        exact hother howner
      simp [hrole, hne]

theorem validateModifyPermission_of_not_owned :
    validateModifyPermission receipt employee = .error (.receiptNotFound receipt.id) := by
  unfold validateModifyPermission
  cases howner : receipt.ownerEmployeeId with
  | none => simp [hrole]
  | some owner =>
      have hne : employee.id ≠ owner := by
        rintro rfl
        exact hother howner
      simp [hrole, hne]

end Guards

/-! ## Calls -/

section Calls

variable (hemployee : getCurrentEmployee db.employees session = .ok employee)
variable (hrole : employee.role = .employee) (howned : db.NotOwned employee receiptId)

include hemployee hrole howned

/-- Reading a receipt of somebody else fails as reading a missing one. -/
theorem getReceipt_of_not_owned :
    getReceipt db session receiptId = .error (.receiptNotFound receiptId) := by
  cases hreceipt : db.receiptRow receiptId with
  | none =>
      simp [getReceipt, Database.findReceipt, hemployee, hreceipt, orElseThrow, bind, Except.bind]
  | some row =>
      have hread : validateReadPermission row.reread employee = .error (.receiptNotFound row.id) :=
        validateReadPermission_of_not_owned hrole (howned row hreceipt)
      have hid : row.id = receiptId := Table.key_of_find? hreceipt
      rw [hid] at hread
      simp [getReceipt, Database.findReceipt, hemployee, hreceipt, hread, orElseThrow, bind,
        Except.bind]

/-- So does correcting it. -/
theorem correctFields_of_not_owned (version : ℤ) (corrections : FieldCorrections)
    (today : LocalDate) (now : Instant) :
    ReceiptCommandService.correctFields db session receiptId version corrections today now =
      .error ((ReceiptCall.correctFields version corrections).refusal receiptId) := by
  by_cases hfields : corrections.clearFields.all CLEARABLE_FIELDS.contains = true
  · cases hreceipt : db.receiptRow receiptId with
    | none =>
        simp [ReceiptCommandService.correctFields, ReceiptCall.refusal, throwIf, findReceipt,
          Database.findReceipt, hfields, hemployee, hreceipt, orElseThrow, bind, Except.bind]
    | some row =>
        have hmodify : validateModifyPermission row.reread employee =
            .error (.receiptNotFound row.id) :=
          validateModifyPermission_of_not_owned hrole (howned row hreceipt)
        have hid : row.id = receiptId := Table.key_of_find? hreceipt
        rw [hid] at hmodify
        simp [ReceiptCommandService.correctFields, ReceiptCall.refusal, throwIf, findReceipt,
          Database.findReceipt, hfields, hemployee, hreceipt, hmodify, orElseThrow, bind,
          Except.bind]
  · simp [ReceiptCommandService.correctFields, ReceiptCall.refusal, throwIf, hfields, bind,
      Except.bind]

omit howned in
/-- A decision is denied by the role, once the receipt is found. -/
theorem decide_of_employee (receiptId : Long) (version : ℤ) (decision : ReviewDecision)
    (note : Option JString) (now : Instant) :
    ReceiptCommandService.decide db session receiptId version decision note now =
      .error (if (db.receiptRow receiptId).isSome then .accessDenied "검토 권한이 필요합니다."
        else .receiptNotFound receiptId) := by
  cases hreceipt : db.receiptRow receiptId with
  | none =>
      simp [ReceiptCommandService.decide, findReceipt, Database.findReceipt, hemployee, hreceipt,
        orElseThrow, bind, Except.bind]
  | some row =>
      simp [ReceiptCommandService.decide, findReceipt, Database.findReceipt,
        validateReviewPermission, throwIf, hrole, hemployee, hreceipt, orElseThrow, bind,
        Except.bind]

/-- A call on a receipt of somebody else fails and changes nothing; the failure
is that of a missing receipt, except for a decision on an existing one. -/
theorem answer_of_not_owned :
    answer P load db session today now receiptId call =
      (.error (if call.isDecision ∧ (db.receiptRow receiptId).isSome then
        .accessDenied "검토 권한이 필요합니다." else call.refusal receiptId), db) := by
  have hread := getReceipt_of_not_owned hemployee hrole howned
  cases call with
  | get | auditEvents | image =>
      simp [answer, getReceiptDetail, getAuditEvents, getOriginalImage, getExtractionJob, hread,
        ReceiptCall.isDecision, ReceiptCall.refusal, bind, Except.bind, Except.map]
  | correctFields version corrections =>
      have hcorrect := correctFields_of_not_owned hemployee hrole howned version corrections today
        now
      simp only [answer, respond, Database.transact, hcorrect, ReceiptCall.isDecision]
      simp
  | decide version decision note =>
      have hdecide := decide_of_employee hemployee hrole receiptId version decision note
        now
      simp only [answer, respond, Database.transact, hdecide, ReceiptCall.isDecision,
        ReceiptCall.refusal, true_and]

end Calls

/-- An employee who calls on a receipt that is not the employee's own changes
nothing, and cannot tell it from a missing receipt if and only if the call is no
decision, or the receipt is missing. -/
theorem existence_hidden_iff (hemployee : getCurrentEmployee db.employees session = .ok employee)
    (hrole : employee.role = .employee) (howned : db.NotOwned employee receiptId)
    (hemployee' : getCurrentEmployee db'.employees session = .ok employee)
    (hmissing : db'.receiptRow receiptId = none) :
    (answer P load db session today now receiptId call).1 =
        (answer P load db' session today now receiptId call).1 ∧
      (answer P load db session today now receiptId call).2 = db ↔
    call.isDecision = false ∨ db.receiptRow receiptId = none := by
  have howned' : db'.NotOwned employee receiptId := by
    intro receipt hreceipt
    rw [hmissing] at hreceipt
    exact absurd hreceipt (by simp)
  rw [answer_of_not_owned hemployee hrole howned, answer_of_not_owned hemployee' hrole howned']
  simp only [hmissing, Option.isSome_none, Bool.false_eq_true, and_false, if_false, and_true,
    Except.error.injEq]
  cases call with
  | decide =>
      cases db.receiptRow receiptId <;> simp [ReceiptCall.isDecision, ReceiptCall.refusal]
  | _ => simp [ReceiptCall.isDecision]

/-! ## Somebody else's receipt -/

namespace Sample

/-- The reviewer has submitted an image. -/
def foreignTrace : List Commit :=
  (replay platform staff []
    [intakeOf { uploadOf "key-1" imageA with ownerId := some 2 } 1 1 0]).getD []

/-- A storage that holds one image. -/
def loadImageA (_storageKey : JString) : Except Failure (List UInt8) := .ok imageA

theorem foreignTrace_notOwned :
    (current staff foreignTrace).NotOwned (account 1 "submitter" .employee) 1 := by
  intro receipt hreceipt
  cases hreceipt
  decide

end Sample

open Sample in
/-- A decision tells an employee that the receipt of the reviewer exists. -/
theorem foreignTrace_disclosed :
    ∃ employee, getCurrentEmployee staff (login 1 "submitter") = .ok employee ∧
      employee.role = .employee ∧ (current staff foreignTrace).NotOwned employee 1 ∧
      (Database.initial staff).receiptRow 1 = none ∧
      (answer platform loadImageA (current staff foreignTrace) (login 1 "submitter") 0 1 1
          (.decide 0 .reject none)).1 ≠
        (answer platform loadImageA (Database.initial staff) (login 1 "submitter") 0 1 1
          (.decide 0 .reject none)).1 :=
  ⟨account 1 "submitter" .employee, rfl, rfl, foreignTrace_notOwned, rfl, by decide⟩

open Sample in
/-- Reading the image does not. -/
theorem foreignTrace_hidden :
    (answer platform loadImageA (current staff foreignTrace) (login 1 "submitter") 0 1 1 .image).1 =
        (answer platform loadImageA (Database.initial staff) (login 1 "submitter") 0 1 1 .image).1 ∧
      (answer platform loadImageA (current staff foreignTrace) (login 1 "submitter") 0 1 1
          .image).2 =
        current staff foreignTrace :=
  (existence_hidden_iff rfl rfl foreignTrace_notOwned rfl rfl).mpr (.inl rfl)

end ReceiptReview
