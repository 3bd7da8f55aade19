import ReceiptReview.Java.Time
import ReceiptReview.Service.Query
import ReceiptReview.Store.Selection

/-!
# Listing receipts

The two lists of `ReceiptQueryService`: an employee's own receipts, and the
receipts that wait for a reviewer.  The queue selects the ids of a page first
and then fetches their rows, which come in any order.
-/

namespace ReceiptReview

open Java Store Outcome

/-! ## Requests and responses -/

/-- The bounds are dates of submission, both included. -/
structure ReceiptListRequest where
  status : Option ReceiptStatus
  from_ : Option LocalDate
  to_ : Option LocalDate
  page : ℤ
  size : ℤ
  deriving DecidableEq, Repr

namespace ReceiptListRequest

def BUSINESS_ZONE : ZoneRules := asiaSeoul

/-- The canonical constructor of the record. -/
def of (status : Option ReceiptStatus) (from_ to_ : Option LocalDate) (page size : Option ℤ) :
    ReceiptListRequest where
  status := status
  from_ := from_
  to_ := to_
  page := page.getD 0
  size := size.getD 20

def unsupportedYear (date : LocalDate) : Bool :=
  getYear date < 1000 || 9999 < getYear date

def validate (request : ReceiptListRequest) : Except Failure Unit := do
  throwIf (request.page < 0 ∨ request.size < 1 ∨ 100 < request.size ∨
      2147483647 < request.page * request.size)
    (.illegalArgument "페이지 번호 또는 크기가 올바르지 않습니다.")
  throwIf (request.from_.any fun from_ => request.to_.any fun to_ => to_ < from_)
    (.illegalArgument "시작일은 종료일보다 늦을 수 없습니다.")
  throwIf (request.from_.any unsupportedYear ∨ request.to_.any unsupportedYear)
    (.illegalArgument "지원하지 않는 날짜입니다.")

def fromInclusive (request : ReceiptListRequest) : Option Instant :=
  request.from_.map fun from_ => BUSINESS_ZONE.atStartOfDay from_

def toExclusive (request : ReceiptListRequest) : Option Instant :=
  request.to_.map fun to_ => BUSINESS_ZONE.atStartOfDay (to_ + 1)

/-- `PageRequest.of`; the order is `listedBefore`. -/
def pageable (request : ReceiptListRequest) : Except Failure PageRequest :=
  if request.page < 0 then .error (.illegalArgument "Page index must not be less than zero")
  else if h : request.size < 1 then
    .error (.illegalArgument "Page size must not be less than one")
  else .ok ⟨request.page.toNat, request.size.toNat, by omega⟩

variable {request : ReceiptListRequest}

theorem validate_eq_ok : request.validate = .ok () ↔
    (0 ≤ request.page ∧ 1 ≤ request.size ∧ request.size ≤ 100 ∧
      request.page * request.size ≤ 2147483647) ∧
    (¬ (request.from_.any fun from_ => request.to_.any fun to_ => to_ < from_) = true) ∧
    ¬ (request.from_.any unsupportedYear = true ∨ request.to_.any unsupportedYear = true) := by
  simp only [validate, bind_eq_ok, throwIf_eq_ok, not_or, not_lt]
  constructor
  · rintro ⟨-, hpage, -, hdates, hyears⟩
    exact ⟨hpage, hdates, hyears⟩
  · rintro ⟨hpage, hdates, hyears⟩
    exact ⟨(), hpage, (), hdates, hyears⟩

theorem validate_eq_error {e : Failure} (h : request.validate = .error e) :
    ∃ message, e = .illegalArgument message := by
  simp only [validate, bind_eq_error, throwIf_eq_error] at h
  rcases h with ⟨-, rfl⟩ | ⟨-, -, ⟨-, rfl⟩ | ⟨-, -, -, rfl⟩⟩
  · exact ⟨_, rfl⟩
  · exact ⟨_, rfl⟩
  · exact ⟨_, rfl⟩

/-- The page of an accepted request. -/
theorem pageable_of_validate (h : request.validate = .ok ()) :
    ∃ pageable, request.pageable = .ok pageable ∧ (pageable.page : ℤ) = request.page ∧
      (pageable.size : ℤ) = request.size := by
  obtain ⟨⟨hpage, hsize, -⟩, -⟩ := validate_eq_ok.mp h
  refine ⟨⟨request.page.toNat, request.size.toNat, by omega⟩, ?_, Int.toNat_of_nonneg hpage,
    Int.toNat_of_nonneg (by omega)⟩
  rw [pageable, if_neg (not_lt.mpr hpage), dif_neg (not_lt.mpr hsize)]

end ReceiptListRequest

/-- `ORDER BY created_at DESC, id DESC`. -/
def listedBefore (a b : Receipt) : Prop :=
  b.createdAt < a.createdAt ∨ b.createdAt = a.createdAt ∧ b.id ≤ a.id

instance : DecidableRel listedBefore := fun a b => by unfold listedBefore; infer_instance

structure ReceiptListItemResponse where
  id : Long
  version : ℕ
  ownerEmployeeId : Option Long
  status : Option ReceiptStatus
  jobStatus : Option ExtractionJobStatus
  shopName : Option JString
  date : Option LocalDate
  totalAmount : Option BigDecimal
  originalFileName : Option JString
  createdAt : Instant
  updatedAt : Instant
  deriving DecidableEq, Repr

/-- `ReceiptListItemResponse.from`. -/
def ReceiptListItemResponse.ofReceipt (receipt : Receipt)
    (jobStatus : Option ExtractionJobStatus) : ReceiptListItemResponse where
  id := receipt.id
  version := receipt.version
  ownerEmployeeId := receipt.ownerEmployeeId
  status := receipt.status
  jobStatus := jobStatus
  shopName := receipt.currentData.bind (·.shopName)
  date := receipt.currentData.bind (·.date)
  totalAmount := receipt.currentData.bind (·.totalAmount)
  originalFileName := receipt.originalFileName
  createdAt := receipt.createdAt
  updatedAt := receipt.updatedAt

structure ReceiptPageResponse where
  content : List ReceiptListItemResponse
  page : ℕ
  size : ℕ
  totalElements : ℕ
  totalPages : ℕ
  hasNext : Bool
  deriving DecidableEq, Repr

/-! ## Repository queries -/

namespace ReceiptRepository

open Truth

/-- The conditions on the status and on the time of submission; a parameter that
is null imposes none. -/
def requested (status : Option ReceiptStatus) (fromInclusive toExclusive : Option Instant)
    (receipt : Receipt) : Truth :=
  ((isNull status).or (compare (· = ·) receipt.status status)).and <|
    ((isNull fromInclusive).or
      (compare (· ≥ ·) (some receipt.createdAt) fromInclusive)).and
    ((isNull toExclusive).or (compare (· < ·) (some receipt.createdAt) toExclusive))

def ownedBy (employeeId : Long) (receipt : Receipt) : Truth :=
  compare (· = ·) receipt.ownerEmployeeId (some employeeId)

def reviewable (reviewerId : Long) (pendingStatuses : List ReceiptStatus) (receipt : Receipt) :
    Truth :=
  (isNotNull receipt.ownerEmployeeId).and <|
    (compare (· ≠ ·) receipt.ownerEmployeeId (some reviewerId)).and
    (isIn receipt.status pendingStatuses)

/-- The rows of a query with this condition. -/
def listed (condition : Receipt → Truth) (db : Database) : List Receipt :=
  (select condition db.receipts.rows).insertionSort listedBefore

/-- The count query with this condition. -/
def count (condition : Receipt → Truth) (db : Database) : ℕ :=
  (select condition db.receipts.rows).length

def myReceipts (employeeId : Long) (status : Option ReceiptStatus)
    (fromInclusive toExclusive : Option Instant) (receipt : Receipt) : Truth :=
  (ownedBy employeeId receipt).and (requested status fromInclusive toExclusive receipt)

def findMyReceipts (db : Database) (employeeId : Long) (status : Option ReceiptStatus)
    (fromInclusive toExclusive : Option Instant) (pageable : PageRequest) : Page Receipt :=
  let condition := myReceipts employeeId status fromInclusive toExclusive
  .query ((listed condition db).map Receipt.reread) (count condition db) pageable

def reviewQueue (reviewerId : Long) (pendingStatuses : List ReceiptStatus)
    (status : Option ReceiptStatus) (fromInclusive toExclusive : Option Instant)
    (receipt : Receipt) : Truth :=
  (reviewable reviewerId pendingStatuses receipt).and
    (requested status fromInclusive toExclusive receipt)

def findReviewQueueIds (db : Database) (reviewerId : Long) (pendingStatuses : List ReceiptStatus)
    (status : Option ReceiptStatus) (fromInclusive toExclusive : Option Instant)
    (pageable : PageRequest) : Page Long :=
  let condition := reviewQueue reviewerId pendingStatuses status fromInclusive toExclusive
  .query ((listed condition db).map (·.id)) (count condition db) pageable

theorem requested_eq_true {status : Option ReceiptStatus}
    {fromInclusive toExclusive : Option Instant} {receipt : Receipt} :
    requested status fromInclusive toExclusive receipt = some true ↔
      (∀ s ∈ status, receipt.status = some s) ∧
        (∀ bound ∈ fromInclusive, bound ≤ receipt.createdAt) ∧
        ∀ bound ∈ toExclusive, receipt.createdAt < bound := by
  unfold requested
  cases status <;> cases fromInclusive <;> cases toExclusive <;> simp

theorem ownedBy_eq_true {employeeId : Long} {receipt : Receipt} :
    ownedBy employeeId receipt = some true ↔ receipt.ownerEmployeeId = some employeeId := by
  simp [ownedBy]

theorem reviewable_eq_true {reviewerId : Long} {pendingStatuses : List ReceiptStatus}
    {receipt : Receipt} :
    reviewable reviewerId pendingStatuses receipt = some true ↔
      (∃ owner, receipt.ownerEmployeeId = some owner ∧ owner ≠ reviewerId) ∧
        ∃ status ∈ pendingStatuses, receipt.status = some status := by
  cases howner : receipt.ownerEmployeeId <;> simp [reviewable, howner]

variable {condition : Receipt → Truth} {db : Database}

theorem mem_listed {receipt : Receipt} :
    receipt ∈ listed condition db ↔ receipt ∈ db.receipts.rows ∧ condition receipt = some true := by
  rw [listed, List.mem_insertionSort, mem_select]

theorem count_eq : count condition db = (listed condition db).length := by
  rw [count, listed, List.length_insertionSort]

theorem findMyReceipts_eq_slice {employeeId : Long} {status : Option ReceiptStatus}
    {fromInclusive toExclusive : Option Instant} {pageable : PageRequest} :
    findMyReceipts db employeeId status fromInclusive toExclusive pageable =
      .slice ((listed (myReceipts employeeId status fromInclusive toExclusive) db).map
        Receipt.reread) pageable := by
  rw [← Page.query_eq_slice, List.length_map, ← count_eq]
  rfl

theorem findReviewQueueIds_eq_slice {reviewerId : Long} {pendingStatuses : List ReceiptStatus}
    {status : Option ReceiptStatus} {fromInclusive toExclusive : Option Instant}
    {pageable : PageRequest} :
    findReviewQueueIds db reviewerId pendingStatuses status fromInclusive toExclusive pageable =
      .slice ((listed (reviewQueue reviewerId pendingStatuses status fromInclusive toExclusive)
        db).map (·.id)) pageable := by
  rw [← Page.query_eq_slice, List.length_map, ← count_eq]
  rfl

end ReceiptRepository

/-- The orders in which the rows of the queries with `in` come. -/
structure Fetch where
  receipts : List Receipt → List Receipt
  jobs : List ReceiptExtractionJob → List ReceiptExtractionJob
  receipts_perm : ∀ rows, (receipts rows).Perm rows
  jobs_perm : ∀ rows, (jobs rows).Perm rows

namespace Fetch

def findAllById (fetch : Fetch) (db : Database) (ids : List Long) : List Receipt :=
  (fetch.receipts (db.receipts.rows.filter (·.id ∈ ids))).map Receipt.reread

def findByReceiptIdIn (fetch : Fetch) (db : Database) (receiptIds : List Long) :
    List ReceiptExtractionJob :=
  fetch.jobs (db.jobs.rows.filter (·.receiptId ∈ receiptIds))

variable {fetch : Fetch} {db : Database} {ids : List Long}

theorem mem_findAllById {receipt : Receipt} :
    receipt ∈ fetch.findAllById db ids ↔
      ∃ row ∈ db.receipts.rows, row.id ∈ ids ∧ row.reread = receipt := by
  simp [findAllById, (fetch.receipts_perm _).mem_iff, and_assoc]

theorem mem_findByReceiptIdIn {job : ReceiptExtractionJob} :
    job ∈ fetch.findByReceiptIdIn db ids ↔ job ∈ db.jobs.rows ∧ job.receiptId ∈ ids := by
  simp [findByReceiptIdIn, (fetch.jobs_perm _).mem_iff]

end Fetch

/-! ## Lists -/

namespace ReceiptQueryService

open CurrentEmployeeService

def REVIEW_PENDING_STATUSES : List ReceiptStatus :=
  [.needsReview, .manualEntry, .needsRecapture, .unreadable]

def findJobStatuses (fetch : Fetch) (db : Database) (receipts : List Receipt) :
    Long → Option ExtractionJobStatus :=
  if receipts = [] then fun _ => none
  else indexBy (·.receiptId) (·.status) (fetch.findByReceiptIdIn db (receipts.map (·.id)))

def createPageResponse (fetch : Fetch) (db : Database) (receiptPage : Page Receipt) :
    ReceiptPageResponse where
  content := receiptPage.content.map fun receipt =>
    .ofReceipt receipt (findJobStatuses fetch db receiptPage.content receipt.id)
  page := receiptPage.pageable.page
  size := receiptPage.pageable.size
  totalElements := receiptPage.totalElements
  totalPages := receiptPage.totalPages
  hasNext := receiptPage.hasNext

def loadReceiptsInPageOrder (fetch : Fetch) (db : Database) (receiptIds : List Long) :
    Except Failure (List Receipt) :=
  if receiptIds = [] then .ok []
  else
    let receiptById := indexBy (·.id) id (fetch.findAllById db receiptIds)
    receiptIds.mapM fun receiptId =>
      orElseThrow (receiptById receiptId) (.receiptNotFound receiptId)

def findMyReceipts (fetch : Fetch) (db : Database) (session : Session)
    (request : ReceiptListRequest) : Except Failure ReceiptPageResponse := do
  request.validate
  let employee ← getCurrentEmployee db.employees session
  let pageable ← request.pageable
  return createPageResponse fetch db (ReceiptRepository.findMyReceipts db employee.id
    request.status request.fromInclusive request.toExclusive pageable)

/-- `@PreAuthorize("hasAnyRole('REVIEWER', 'ADMIN')")`, for the role that the
authentication of the request grants. -/
def preAuthorize (authority : Option EmployeeRole) : Except Failure Unit :=
  throwIf (authority ≠ some .reviewer ∧ authority ≠ some .admin) (.accessDenied "Access Denied")

def findReviewQueue (fetch : Fetch) (db : Database) (authority : Option EmployeeRole)
    (session : Session) (request : ReceiptListRequest) : Except Failure ReceiptPageResponse := do
  preAuthorize authority
  request.validate
  let employee ← getCurrentEmployee db.employees session
  let pageable ← request.pageable
  let receiptIdPage := ReceiptRepository.findReviewQueueIds db employee.id
    REVIEW_PENDING_STATUSES request.status request.fromInclusive request.toExclusive pageable
  let receipts ← loadReceiptsInPageOrder fetch db receiptIdPage.content
  return createPageResponse fetch db
    (.of receipts receiptIdPage.pageable receiptIdPage.totalElements)

/-! ## What the lists answer -/

variable {fetch : Fetch} {db : Database} {session : Session} {employee : Employee}
variable {authority : Option EmployeeRole} {request : ReceiptListRequest}

/-- The rows of a page are loaded in the order of their ids, whatever order they
are fetched in. -/
theorem loadReceiptsInPageOrder_map {receipts : List Receipt}
    (hstored : ∀ row ∈ receipts, row ∈ db.receipts.rows) :
    loadReceiptsInPageOrder fetch db (receipts.map (·.id)) =
      .ok (receipts.map Receipt.reread) := by
  unfold loadReceiptsInPageOrder
  split
  · rename_i hnil
    rw [List.map_eq_nil_iff.mp hnil, List.map_nil]
  · apply mapM_map_eq_ok
    intro row hrow
    have hfetched : row.reread ∈ fetch.findAllById db (receipts.map (·.id)) :=
      Fetch.mem_findAllById.mpr ⟨row, hstored row hrow, List.mem_map_of_mem hrow, rfl⟩
    have hdistinct : ∀ a ∈ fetch.findAllById db (receipts.map (·.id)),
        ∀ b ∈ fetch.findAllById db (receipts.map (·.id)), a.id = b.id → a = b := by
      intro a ha b hb hid
      obtain ⟨rowA, hrowA, -, rfl⟩ := Fetch.mem_findAllById.mp ha
      obtain ⟨rowB, hrowB, -, rfl⟩ := Fetch.mem_findAllById.mp hb
      rw [List.inj_on_of_nodup_map db.receipts.keys_nodup hrowA hrowB hid]
    rw [orElseThrow_eq_ok]
    exact indexBy_of_mem hdistinct hfetched

theorem findMyReceipts_eq_ok (hemployee : getCurrentEmployee db.employees session = .ok employee)
    (hvalid : request.validate = .ok ()) {pageable : PageRequest}
    (hpageable : request.pageable = .ok pageable) :
    findMyReceipts fetch db session request = .ok (createPageResponse fetch db (.slice
      ((ReceiptRepository.listed (ReceiptRepository.myReceipts employee.id request.status
        request.fromInclusive request.toExclusive) db).map Receipt.reread) pageable)) := by
  simp [findMyReceipts, hvalid, hemployee, hpageable, ReceiptRepository.findMyReceipts_eq_slice,
    bind, Except.bind, pure, Except.pure]

theorem findReviewQueue_eq_ok (hemployee : getCurrentEmployee db.employees session = .ok employee)
    (hauthority : authority = some .reviewer ∨ authority = some .admin)
    (hvalid : request.validate = .ok ()) {pageable : PageRequest}
    (hpageable : request.pageable = .ok pageable) :
    findReviewQueue fetch db authority session request = .ok (createPageResponse fetch db (.slice
      ((ReceiptRepository.listed (ReceiptRepository.reviewQueue employee.id
        REVIEW_PENDING_STATUSES request.status request.fromInclusive request.toExclusive) db).map
        Receipt.reread) pageable)) := by
  have hgranted : preAuthorize authority = .ok () := by
    rcases hauthority with rfl | rfl <;> rfl
  have hloaded : ∀ condition, loadReceiptsInPageOrder fetch db
      ((window (ReceiptRepository.listed condition db) pageable.size pageable.page).map (·.id)) =
        .ok ((window (ReceiptRepository.listed condition db) pageable.size pageable.page).map
          Receipt.reread) :=
    fun _ => loadReceiptsInPageOrder_map fun _ hrow =>
      (ReceiptRepository.mem_listed.mp (mem_of_mem_window hrow)).1
  have hread : ∀ rows : List Receipt,
      Page.of ((window rows pageable.size pageable.page).map Receipt.reread) pageable rows.length =
        .slice (rows.map Receipt.reread) pageable := by
    intro rows
    rw [← map_window, ← Page.of_window, List.length_map]
  rw [← hread]
  simp only [findReviewQueue, hgranted, hvalid, hemployee, hpageable,
    ReceiptRepository.findReviewQueueIds_eq_slice, Page.slice, map_window, hloaded, bind,
    Except.bind, pure, Except.pure, List.length_map]

end ReceiptQueryService

end ReceiptReview
