import Mathlib.Tactic.NormNum
import Mathlib.Tactic.Positivity
import ReceiptReview.Results.PageCommands
import ReceiptReview.Results.ReviewQueue

/-!
# What the page offers and what the server accepts

`renderDetail` decides by a policy of its own which forms of a receipt it enables, and
`ReceiptCommandService` decides by its guards which requests it accepts.  The two are
written in two languages and read different data: the page looks at the status of the job
and at the response, the server at the receipt.

They agree on corrections and rejections, in every state of every run.  On approvals they
agree where the two languages read the fields alike: a name that consists of separators
which only one of them takes for white space, and an amount below the least positive number
of the page, are read differently.
-/

namespace ReceiptReview

open Java ReceiptApp Store Outcome ReceiptCase ReceiptQueryService ReceiptCommandService
open CurrentEmployeeService

variable {db : Database} {session : Session} {employee : Employee} {receipt : Receipt}
variable {P : Platform} {employees : Table Employee} {trace : List Commit}

/-- Under the stored version a correction meets two guards. -/
theorem accepts_correctFields_iff
    (hemployee : getCurrentEmployee db.employees session = .ok employee)
    (hstored : db.receiptRow receipt.id = some receipt) {corrections : FieldCorrections}
    {today : LocalDate} {now : Instant}
    (hclear : corrections.clearFields.all CLEARABLE_FIELDS.contains) :
    (Accepts P db fun db => correctFields db session receipt.id receipt.version corrections today
      now) ↔
    validateModifyPermission receipt employee = .ok () ∧
      validateEditableStatus receipt = .ok () := by
  rw [accepts_iff]
  constructor
  · rintro ⟨result, changes, db', hcorrect, -⟩
    obtain ⟨employee', receipt', hemployee', hreceipt', hpermission, -, heditable, -⟩ :=
      correctFields_eq_ok hcorrect
    rw [hemployee] at hemployee'
    rw [hstored] at hreceipt'
    cases hemployee'
    cases hreceipt'
    exact ⟨hpermission, heditable⟩
  · rintro ⟨hpermission, heditable⟩
    obtain ⟨db', hcommit⟩ : ∃ db', db.commit P {
        receipts := [corrected employee receipt.reread corrections today now]
        events := [correctedEvent employee receipt.reread corrections today now] } = .ok db' :=
      exists_commit_receipt _ hstored rfl
    refine ⟨(corrected employee receipt.reread corrections today now).flushed, _, db', ?_, hcommit⟩
    have hpermission' : validateModifyPermission receipt.reread employee = .ok () := hpermission
    have heditable' : validateEditableStatus receipt.reread = .ok () := heditable
    simp [correctFields, findReceipt, Database.findReceipt_of_receiptRow hstored, ensureVersion,
      throwIf, orElseThrow, hclear, hemployee, hpermission', heditable', bind, Except.bind, pure,
      Except.pure]

/-! ## What the two languages read -/

/-- White space of one of the two languages: `Character.isWhitespace` takes four control
characters more, `String.prototype.trim` the non-breaking spaces and the byte order mark. -/
def disputedSpaces : List UInt16 := [0x1C, 0x1D, 0x1E, 0x1F, 0xA0, 0x2007, 0x202F, 0xFEFF]

theorem isJsSpace_eq_isWhitespace {unit : UInt16} (h : unit ∉ disputedSpaces) :
    isJsSpace unit = isWhitespace unit := by
  simp only [disputedSpaces, List.mem_cons, List.not_mem_nil, or_false, not_or] at h
  rw [Bool.eq_iff_iff]
  simp only [isJsSpace, isWhitespace, Bool.or_eq_true, Bool.and_eq_true, decide_eq_true_eq,
    beq_iff_eq, bne_iff_ne, ne_eq, UInt16.le_iff_toNat_le, ← UInt16.toNat_inj] at h ⊢
  simp at h ⊢
  omega

/-- Half of the least positive number of the page is below the least decimal of 323 places. -/
theorem half_least_lt : (1 / 2 : ℚ) ^ 1075 < 10 ^ (-323 : ℤ) := by
  have hsplit : (10 : ℚ) ^ 323 < 2 ^ 1075 :=
    calc (10 : ℚ) ^ 323 = (10 ^ 19) ^ 17 := by rw [← pow_mul]
      _ < (2 ^ 63) ^ 17 * 2 ^ 4 := by norm_num
      _ = 2 ^ 1075 := by rw [← pow_mul, ← pow_add]
  rw [one_div, inv_pow, zpow_neg]
  exact inv_strictAnti₀ (by positivity) (by exact_mod_cast hsplit)

/-- A decimal of at most 323 places is positive for the page if it is positive. -/
theorem numberPositive_iff {value : BigDecimal} (h : value.scale ≤ 323) :
    numberPositive value = true ↔ 0 < value.signum := by
  rw [numberPositive, decide_eq_true_eq, BigDecimal.signum_pos_iff]
  constructor
  · exact fun hleast => lt_trans (by positivity) hleast
  · intro hpositive
    have hunscaled : (1 : ℚ) ≤ value.unscaledValue := by
      rw [← BigDecimal.signum_pos_iff, BigDecimal.signum, Int.sign_pos_iff] at hpositive
      exact_mod_cast hpositive
    calc (1 / 2 : ℚ) ^ 1075 < 10 ^ (-323 : ℤ) := half_least_lt
      _ ≤ 10 ^ (-value.scale) := zpow_le_zpow_right₀ (by norm_num) (by omega)
      _ ≤ value.toRat := le_mul_of_one_le_left (by positivity) hunscaled

/-- Both languages read the name and the amount alike. -/
structure ReceiptData.Legible (data : ReceiptData) : Prop where
  shopName : ∀ shopName, data.shopName = some shopName → ∀ unit ∈ shopName, unit ∉ disputedSpaces
  totalAmount : ∀ totalAmount, data.totalAmount = some totalAmount → totalAmount.scale ≤ 323

theorem ReceiptData.Legible.hasApprovalFields_iff {data : ReceiptData} (h : data.Legible) :
    (data.shopName.any (fun shopName => !shopName.all isJsSpace) && data.date.isSome &&
      data.totalAmount.any numberPositive) = true ↔
    data.shopName.all JString.isBlank = false ∧ data.date.isNone = false ∧
      data.totalAmount.all (·.signum ≤ 0) = false := by
  have hname : data.shopName.any (fun shopName => !shopName.all isJsSpace) =
      !data.shopName.all JString.isBlank := by
    cases hsome : data.shopName with
    | none => rfl
    | some shopName =>
        have hspaces : shopName.all isJsSpace = shopName.isBlank := by
          unfold JString.isBlank
          rw [Bool.eq_iff_iff, List.all_eq_true, List.all_eq_true]
          exact forall₂_congr fun unit hunit => by
            rw [isJsSpace_eq_isWhitespace (h.shopName shopName hsome unit hunit)]
        simp [hspaces]
  have hamount : data.totalAmount.any numberPositive =
      !data.totalAmount.all (·.signum ≤ 0) := by
    cases hsome : data.totalAmount with
    | none => rfl
    | some totalAmount =>
        have hpositive := numberPositive_iff (h.totalAmount totalAmount hsome)
        by_cases hsign : 0 < totalAmount.signum
        · simp [hpositive.mpr hsign, hsign]
        · simp [Bool.eq_false_iff.mpr (mt hpositive.mp hsign), not_lt.mp hsign]
  rw [hname, hamount]
  cases data.date <;> simp

/-! ## The policy of the page -/

theorem getReceiptDetail_of_ok
    (hemployee : getCurrentEmployee db.employees session = .ok employee) {id : Long}
    {response : ReceiptResponse} (hresponse : getReceiptDetail db session id = .ok response) :
    ∃ receipt, db.receiptRow id = some receipt ∧
      validateReadPermission receipt employee = .ok () ∧
      ∃ job, db.findJobByReceiptId id = some job ∧
        response = .ofReceipt receipt.reread job.status := by
  simp only [getReceiptDetail, getReceipt, bind_eq_ok, orElseThrow_eq_ok,
    Database.findReceipt_eq_some, pure_eq_ok] at hresponse
  obtain ⟨_, ⟨employee', hemployee', _, ⟨receipt, hstored, rfl⟩, ⟨⟩, hread, rfl⟩, job, hjob, rfl⟩ :=
    hresponse
  rw [hemployee] at hemployee'
  cases hemployee'
  exact ⟨receipt, hstored, hread, job, hjob, rfl⟩

variable {jobStatus : ExtractionJobStatus}

theorem pendingJobs_contains : pendingJobs.contains jobStatus = jobStatus.isPending := by
  cases jobStatus <;> rfl

/-- The page asks the job and the owner where the server asks the status and the owner. -/
theorem editable_iff (hstatus : receipt.status = none ↔ jobStatus.isPending) :
    (ReceiptResponse.ofReceipt receipt jobStatus).editable = true ↔
      validateEditableStatus receipt = .ok () ∧ receipt.ownerEmployeeId.isSome := by
  rw [validateEditableStatus_eq_ok, ReceiptResponse.editable, pendingJobs_contains]
  simp only [Bool.and_eq_true, Bool.not_eq_true', Bool.or_eq_false_iff, decide_eq_false_iff_not]
  simp only [ReceiptResponse.ofReceipt]
  cases hcase : receipt.status with
  | none => simp
  | some status =>
      have hended : jobStatus.isPending = false := by
        rw [← Bool.not_eq_true, ← hstatus, hcase]
        simp
      simp [hended]

variable {shown : EmployeeResponse}

/-- Who can read a receipt that has an owner is the owner or no plain employee. -/
theorem owner_of_read (hread : validateReadPermission receipt employee = .ok ()) {owner : Long}
    (howner : receipt.ownerEmployeeId = some owner) (hrole : employee.role = .employee) :
    employee.id = owner := by
  simp only [validateReadPermission, howner, hrole, true_and] at hread
  by_contra hother
  simp [hother] at hread

theorem correct_iff (hstatus : receipt.status = none ↔ jobStatus.isPending)
    (hread : validateReadPermission receipt employee = .ok ())
    (hrole : shown.role = employee.role) :
    ((ReceiptResponse.ofReceipt receipt jobStatus).offers shown).correct = true ↔
      validateModifyPermission receipt employee = .ok () ∧
        validateEditableStatus receipt = .ok () := by
  have hcorrect : ((ReceiptResponse.ofReceipt receipt jobStatus).offers shown).correct = true ↔
      (ReceiptResponse.ofReceipt receipt jobStatus).editable = true ∧
        (employee.role = .employee → receipt.status.any editableStatuses.contains) := by
    simp [ReceiptResponse.offers, ReceiptResponse.ofReceipt, hrole, imp_iff_not_or]
  rw [hcorrect, editable_iff hstatus, validateModifyPermission_eq_ok]
  constructor
  · rintro ⟨⟨heditable, hsome⟩, hopen⟩
    obtain ⟨owner, howner⟩ := Option.isSome_iff_exists.mp hsome
    refine ⟨⟨owner, howner, fun hemployee => ⟨owner_of_read hread howner hemployee, ?_⟩⟩, heditable⟩
    obtain ⟨status, hvalue, hmem⟩ := (Option.any_eq_true _ _).mp (hopen hemployee)
    refine ⟨status, ?_, hvalue⟩
    cases status <;> first | decide | exact absurd hmem (by decide)
  · rintro ⟨⟨owner, howner, hopen⟩, heditable⟩
    refine ⟨⟨heditable, by simp [howner]⟩, fun hemployee => ?_⟩
    obtain ⟨-, status, hmem, hvalue⟩ := hopen hemployee
    rw [hvalue]
    revert hmem
    cases status <;> decide

theorem review_iff (hstatus : receipt.status = none ↔ jobStatus.isPending)
    (hread : validateReadPermission receipt employee = .ok ()) (hid : shown.id = employee.id)
    (hrole : shown.role = employee.role) :
    ((ReceiptResponse.ofReceipt receipt jobStatus).offers shown).review = true ↔
      validateReviewPermission receipt employee = .ok () ∧
        validateEditableStatus receipt = .ok () := by
  have hreview : ((ReceiptResponse.ofReceipt receipt jobStatus).offers shown).review = true ↔
      ((ReceiptResponse.ofReceipt receipt jobStatus).offers shown).correct = true ∧
        employee.role ≠ .employee ∧ receipt.ownerEmployeeId ≠ some employee.id := by
    simp [ReceiptResponse.offers, ReceiptResponse.ofReceipt, hrole, hid, and_assoc]
  rw [hreview, correct_iff hstatus hread hrole, validateModifyPermission_eq_ok,
    validateReviewPermission_eq_ok]
  constructor
  · rintro ⟨⟨⟨owner, howner, -⟩, heditable⟩, hreviewer, hother⟩
    rw [howner, ne_eq, Option.some.injEq] at hother
    exact ⟨⟨hreviewer, owner, howner, Ne.symm hother⟩, heditable⟩
  · rintro ⟨⟨hreviewer, owner, howner, hother⟩, heditable⟩
    refine ⟨⟨⟨owner, howner, fun hrole => absurd hrole hreviewer⟩, heditable⟩, hreviewer, ?_⟩
    rw [howner, ne_eq, Option.some.injEq]
    exact Ne.symm hother

theorem approve_iff (hlegible : ∀ data, receipt.currentData = some data → data.Legible) :
    ((ReceiptResponse.ofReceipt receipt jobStatus).offers shown).approve = true ↔
      validateApproval receipt = .ok () := by
  unfold validateApproval ReceiptResponse.offers ReceiptResponse.hasApprovalFields
  simp only [ReceiptResponse.ofReceipt]
  by_cases hcorrection : receipt.status = some .needsRecapture ∨ receipt.status = some .unreadable
  · rcases hcorrection with hcorrection | hcorrection <;> simp [hcorrection]
  · rw [if_neg hcorrection]
    obtain ⟨hrecapture, hunreadable⟩ := not_or.mp hcorrection
    cases hdata : receipt.currentData with
    | none => simp
    | some data =>
        have hfields := (hlegible data hdata).hasApprovalFields_iff
        simp only [hrecapture, hunreadable, decide_false, Bool.or_self, Bool.false_or, Bool.not_not,
          Option.any_some, hfields]
        constructor
        · rintro ⟨hname, hdate, hamount⟩
          simp [hname, hdate, hamount]
        · intro haccepted
          split at haccepted
          · exact absurd haccepted (by simp)
          · split at haccepted
            · exact absurd haccepted (by simp)
            · split at haccepted
              · exact absurd haccepted (by simp)
              · simp_all

/-- In every state that a run reaches, the page that has read a receipt enables the form of
corrections exactly when the server accepts a correction of it from this employee, and the
form of decisions exactly when it accepts a rejection.  The button for an approval is
enabled in that form exactly when it accepts an approval, provided that the two languages
read the name and the amount alike. -/
theorem page_offers_what_is_accepted (hrun : Run P employees trace)
    (hemployee : getCurrentEmployee (current employees trace).employees session = .ok employee)
    (hid : shown.id = employee.id) (hrole : shown.role = employee.role) {id : Long}
    {response : ReceiptResponse}
    (hresponse : getReceiptDetail (current employees trace) session id = .ok response) :
    (∀ corrections : FieldCorrections, corrections.clearFields.all CLEARABLE_FIELDS.contains →
      ∀ today now, (response.offers shown).correct = true ↔
        Accepts P (current employees trace) fun db =>
          correctFields db session id response.version corrections today now) ∧
    (∀ note now, (response.offers shown).review = true ↔
      Accepts P (current employees trace) fun db =>
        ReceiptCommandService.decide db session id response.version .reject note now) ∧
    ((∀ data, response.currentData = some data → data.Legible) → ∀ note now,
      ((response.offers shown).review = true ∧ (response.offers shown).approve = true ↔
        Accepts P (current employees trace) fun db =>
          ReceiptCommandService.decide db session id response.version .approve note now)) := by
  obtain ⟨receipt, hstored, hread, job, hjob, rfl⟩ := getReceiptDetail_of_ok hemployee hresponse
  obtain rfl : receipt.id = id := Database.id_of_receiptRow hstored
  have hpaired := hrun.current_refines.paired
  obtain ⟨x, hx, rfl⟩ := hpaired.of_receipt hstored
  obtain rfl : x.job = job := by
    rw [hpaired.findJobByReceiptId hx] at hjob
    exact Option.some.inj hjob
  have hstatus : x.receipt.reread.status = none ↔ x.job.status.isPending :=
    (hrun.consistent hx).status_iff
  have hread : validateReadPermission x.receipt.reread employee = .ok () := hread
  refine ⟨fun corrections hclear today now => ?_, fun note now => ?_, fun hlegible note now => ?_⟩
  · rw [correct_iff hstatus hread hrole]
    exact (accepts_correctFields_iff hemployee hstored hclear).symm
  · rw [review_iff hstatus hread hid hrole]
    exact (reject_ok_iff hemployee hstored).symm
  · rw [review_iff hstatus hread hid hrole, approve_iff hlegible, and_assoc]
    refine ((accepts_decide_iff hemployee hstored).trans ?_).symm
    exact and_congr_right' (and_congr_right' (imp_iff_right rfl))

namespace Sample

def extractedReceipt : Except Failure ReceiptResponse :=
  getReceiptDetail (current staff extractedTrace) (Sample.login 2 "reviewer") 1

theorem extractedReceipt_legible : ∃ response, extractedReceipt = .ok response ∧
    (∀ data, response.currentData = some data → data.Legible) ∧
    (response.offers reviewer).review = true ∧ (response.offers reviewer).approve = true := by
  refine ⟨_, rfl, ?_, by decide +kernel, by decide +kernel⟩
  rintro _ ⟨⟩
  constructor
  · rintro _ ⟨⟩ unit hunit
    have hletters : unit ∈ ([83, 104, 111, 112] : List UInt16) := hunit
    simp only [List.mem_cons, List.not_mem_nil, or_false] at hletters
    rcases hletters with rfl | rfl | rfl | rfl <;> decide
  · rintro _ ⟨⟩
    decide

end Sample

open Sample in
/-- The page offers the approval of the extracted receipt, and the server accepts it. -/
theorem extracted_offered :
    ∃ response, extractedReceipt = .ok response ∧
      Accepts platform (current staff extractedTrace) fun db =>
        ReceiptCommandService.decide db (Sample.login 2 "reviewer") 1 response.version .approve none
          0 := by
  have hextracted : Run platform staff extractedTrace :=
    approvalTrace_run.suffix ((List.tail_suffix _).trans (List.tail_suffix _))
  have hemployee : getCurrentEmployee (current staff extractedTrace).employees
      (Sample.login 2 "reviewer") = .ok (account 2 "reviewer" .reviewer) := rfl
  have hid : reviewer.id = (account 2 "reviewer" .reviewer).id := rfl
  obtain ⟨response, hresponse, hlegible, hoffered⟩ := extractedReceipt_legible
  exact ⟨response, hresponse, ((page_offers_what_is_accepted hextracted hemployee hid rfl
    hresponse).2.2 hlegible none 0).mp hoffered⟩

end ReceiptReview
