import ReceiptReview.Java.Decimal
import ReceiptReview.Java.Text
import ReceiptReview.Store.Table

/-!
# Receipts

The receipt entity and the values it holds.  A receipt keeps two states apart:
its business status, which is null until the first outcome of the extraction,
and the technical state of its extraction job (`Job.lean`).
-/

namespace ReceiptReview

open Java Store

/-- A Java `Long`: primary keys and employee numbers. -/
abbrev Long := ℤ

/-- An instant, in nanoseconds since the epoch. -/
abbrev Instant := ℤ

/-- A calendar date, in days since the epoch. -/
abbrev LocalDate := ℤ

inductive ReceiptStatus
  | autoApproved
  | needsReview
  | needsRecapture
  | manualEntry
  | unreadable
  | approved
  | rejected
  deriving DecidableEq, Repr

inductive ReviewDecision
  | approve
  | reject
  deriving DecidableEq, Repr

inductive RuleOutcome
  | pass
  | fail
  | notApplicable
  deriving DecidableEq, Repr

/-- The result of one deterministic rule. -/
structure RuleResult where
  code : String
  outcome : RuleOutcome
  message : String
  deriving DecidableEq, Repr

def RuleResult.failed (result : RuleResult) : Bool :=
  result.outcome == .fail

/-- Some rule reports a duplicate submission. -/
def duplicateFailed (ruleResults : List RuleResult) : Bool :=
  ruleResults.any fun result => result.code == "DUPLICATE_SUBMISSION" && result.failed

structure LineItem where
  name : Option JString
  quantity : Option ℤ
  unitPrice : Option BigDecimal
  amount : Option BigDecimal
  deriving DecidableEq, Repr

namespace ReceiptData

def normalize (value : Option JString) : Option JString :=
  match value with
  | none => none
  | some value => if value.isBlank then none else some value.trim

/-- A text that has nothing to trim. -/
def Trimmed (value : Option JString) : Prop :=
  value.map JString.trim = value

theorem trimmed_normalize (value : Option JString) : Trimmed (normalize value) := by
  cases value with
  | none => rfl
  | some text =>
      show Trimmed (if text.isBlank then none else some text.trim)
      split
      · rfl
      · exact congrArg some text.trim_trim

/-- A text without anything to trim is kept, unless it is blank. -/
theorem Trimmed.normalize_eq {value : Option JString} (h : Trimmed value) :
    normalize value = value ∨ normalize value = none := by
  cases value with
  | none => exact .inl rfl
  | some text =>
      by_cases hblank : text.isBlank = true
      · exact .inr (if_pos hblank)
      · exact .inl ((if_neg hblank).trans h)

end ReceiptData

/-- The canonical constructor leaves nothing to trim in the three texts. -/
@[ext]
structure ReceiptData where
  shopName : Option JString
  date : Option LocalDate
  totalAmount : Option BigDecimal
  businessRegistrationNumber : Option JString
  paymentMethod : Option JString
  lineItems : List LineItem
  trimmed : ∀ text ∈ [shopName, businessRegistrationNumber, paymentMethod],
    ReceiptData.Trimmed text
  deriving DecidableEq, Repr

namespace ReceiptData

/-- The canonical constructor of the record. -/
def of (shopName : Option JString) (date : Option LocalDate) (totalAmount : Option BigDecimal)
    (businessRegistrationNumber paymentMethod : Option JString)
    (lineItems : Option (List LineItem)) : ReceiptData where
  shopName := normalize shopName
  date := date
  totalAmount := totalAmount
  businessRegistrationNumber := normalize businessRegistrationNumber
  paymentMethod := normalize paymentMethod
  lineItems := lineItems.getD []
  trimmed := by
    simp only [List.forall_mem_cons]
    exact ⟨trimmed_normalize _, trimmed_normalize _, trimmed_normalize _, by simp⟩

/-- The receipt on which nothing was read. -/
def blank : ReceiptData := of none none none none none (some [])

/-- The canonical constructor on the components of a value: what the stored JSON is read as. -/
def rebuild (data : ReceiptData) : ReceiptData :=
  of data.shopName data.date data.totalAmount data.businessRegistrationNumber data.paymentMethod
    (some data.lineItems)

/-- What has been read back once reads back as it is. -/
@[simp] theorem rebuild_rebuild (data : ReceiptData) : data.rebuild.rebuild = data.rebuild := by
  have htwice : ∀ text ∈ [data.shopName, data.businessRegistrationNumber, data.paymentMethod],
      normalize (normalize text) = normalize text := by
    intro text hmem
    rcases (data.trimmed text hmem).normalize_eq with hkept | hnone
    · rw [hkept, hkept]
    · rw [hnone]
      rfl
  exact ReceiptData.ext (htwice _ (by simp)) rfl rfl (htwice _ (by simp)) (htwice _ (by simp)) rfl

end ReceiptData

/-- The key of an entity whose row has not been inserted. -/
def unsaved : Long := 0

/-- A row of `receipts`. -/
structure Receipt where
  id : Long
  ownerEmployeeId : Option Long
  version : ℕ
  companyId : JString
  imageSha256 : JString
  originalFileName : Option JString
  contentType : Option JString
  fileSize : ℤ
  originalData : Option ReceiptData
  currentData : Option ReceiptData
  status : Option ReceiptStatus
  ruleResults : List RuleResult
  createdAt : Instant
  updatedAt : Instant
  deriving DecidableEq, Repr

instance : Entity Receipt where
  key := Receipt.id
  version := Receipt.version
  withVersion receipt version := { receipt with version }
  key_withVersion _ _ := rfl
  version_withVersion _ _ := rfl

@[simp] theorem Receipt.key_eq (receipt : Receipt) : Entity.key receipt = receipt.id := rfl

@[simp] theorem Receipt.version_eq (receipt : Receipt) :
    Entity.version receipt = receipt.version := rfl

@[simp] theorem Receipt.withVersion_eq (receipt : Receipt) (version : ℕ) :
    Entity.withVersion receipt version = { receipt with version } := rfl

namespace Receipt

/-- The constructor; `submittedBy` sets the owner and the insertion sets the key. -/
def new (companyId imageSha256 : JString) (originalFileName contentType : Option JString)
    (fileSize : ℤ) (originalData : Option ReceiptData) (status : Option ReceiptStatus)
    (ruleResults : List RuleResult) (createdAt : Instant) : Receipt where
  id := unsaved
  ownerEmployeeId := none
  version := 0
  companyId := companyId
  imageSha256 := imageSha256
  originalFileName := originalFileName
  contentType := contentType
  fileSize := fileSize
  originalData := originalData
  currentData := originalData
  status := status
  ruleResults := ruleResults
  createdAt := createdAt
  updatedAt := createdAt

def updateData (receipt : Receipt) (data : Option ReceiptData) (results : List RuleResult)
    (nextStatus : ReceiptStatus) (at_ : Instant) : Receipt :=
  { receipt with
    currentData := data
    ruleResults := results
    status := some nextStatus
    updatedAt := at_ }

/-- Record the proposal of the extraction and the current value together. -/
def completeExtraction (receipt : Receipt) (data : Option ReceiptData)
    (results : List RuleResult) (nextStatus : ReceiptStatus) (at_ : Instant) : Receipt :=
  { receipt with
    originalData := data
    currentData := data
    ruleResults := results
    status := some nextStatus
    updatedAt := at_ }

def changeStatus (receipt : Receipt) (nextStatus : ReceiptStatus) (at_ : Instant) : Receipt :=
  { receipt with status := some nextStatus, updatedAt := at_ }

/-- The entity that a row is read as: its two values of data are built again from their JSON. -/
def reread (row : Receipt) : Receipt :=
  { row with
    originalData := row.originalData.map ReceiptData.rebuild
    currentData := row.currentData.map ReceiptData.rebuild }

/-- The entity after its update was flushed: Hibernate counts the version up. -/
def flushed (receipt : Receipt) : Receipt :=
  { receipt with version := receipt.version + 1 }

/-! ## What a read changes -/

section Reread

variable (row : Receipt)

@[simp] theorem id_reread : row.reread.id = row.id := rfl

@[simp] theorem ownerEmployeeId_reread : row.reread.ownerEmployeeId = row.ownerEmployeeId := rfl

@[simp] theorem version_reread : row.reread.version = row.version := rfl

@[simp] theorem companyId_reread : row.reread.companyId = row.companyId := rfl

@[simp] theorem imageSha256_reread : row.reread.imageSha256 = row.imageSha256 := rfl

@[simp] theorem status_reread : row.reread.status = row.status := rfl

@[simp] theorem ruleResults_reread : row.reread.ruleResults = row.ruleResults := rfl

@[simp] theorem createdAt_reread : row.reread.createdAt = row.createdAt := rfl

@[simp] theorem originalData_reread :
    row.reread.originalData = row.originalData.map ReceiptData.rebuild := rfl

@[simp] theorem currentData_reread :
    row.reread.currentData = row.currentData.map ReceiptData.rebuild := rfl

theorem reread_reread : row.reread.reread = row.reread := by
  simp [reread, Function.comp_def]

end Reread

end Receipt

end ReceiptReview
