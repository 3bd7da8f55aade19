import ReceiptReview.Service.Listing
import ReceiptReview.System.Replay

/-!
# The pages of a list

A list of receipts is asked for page by page, and each page is a query of its
own.  On one state of the database the pages add up: one after another they show
the receipts that belong to the list, in its order and each once (`Partitions`).

Both lists are windows of the same sequence of rows.  For the queue the rows of a
window are fetched by their ids and put back into the order of the ids.  The
bounds of a request are instants; they stand for dates of the business zone
(`between_iff_covers`), because no date of that zone begins twice.
-/

namespace ReceiptReview

open Java Store ReceiptQueryService CurrentEmployeeService

/-! ## What a list is -/

/-- The request for another page of the same list. -/
def ReceiptListRequest.at_ (request : ReceiptListRequest) (page : ℕ) : ReceiptListRequest :=
  { request with page := page }

/-- The receipt has the status that the request asks for, and was submitted on a
date within the bounds of the request. -/
structure ReceiptListRequest.Covers (request : ReceiptListRequest) (receipt : Receipt) : Prop where
  status : ∀ status ∈ request.status, receipt.status = some status
  from_ : ∀ date ∈ request.from_,
    date ≤ ReceiptListRequest.BUSINESS_ZONE.localDate receipt.createdAt
  to_ : ∀ date ∈ request.to_, ReceiptListRequest.BUSINESS_ZONE.localDate receipt.createdAt ≤ date

/-- Later submissions come first; of simultaneous ones, the one with the larger id. -/
def ShownBefore (a b : Receipt) : Prop :=
  b.createdAt < a.createdAt ∨ b.createdAt = a.createdAt ∧ b.id < a.id

/-- All the stored receipts that belong to the list and are asked for, in the order of
the list; as the order is strict, each of them once. -/
structure IsListing (db : Database) (belongs : Receipt → Prop) (request : ReceiptListRequest)
    (receipts : List Receipt) : Prop where
  mem_iff : ∀ receipt,
    receipt ∈ receipts ↔ receipt ∈ db.receipts.rows ∧ belongs receipt ∧ request.Covers receipt
  sorted : receipts.Pairwise ShownBefore

/-- The item shows the receipt of the row with its data as it is read, and the status of
its job. -/
structure ReceiptListItemResponse.Shows (db : Database) (row : Receipt)
    (item : ReceiptListItemResponse) : Prop where
  id : item.id = row.id
  version : item.version = row.version
  ownerEmployeeId : item.ownerEmployeeId = row.ownerEmployeeId
  status : item.status = row.status
  shopName : item.shopName = row.reread.currentData.bind (·.shopName)
  date : item.date = row.currentData.bind (·.date)
  totalAmount : item.totalAmount = row.currentData.bind (·.totalAmount)
  originalFileName : item.originalFileName = row.originalFileName
  createdAt : item.createdAt = row.createdAt
  updatedAt : item.updatedAt = row.updatedAt
  jobStatus : ∀ status, item.jobStatus = some status →
    ∃ job ∈ db.jobs.rows, job.receiptId = row.id ∧ job.status = status
  noJob : item.jobStatus = none → ∀ job ∈ db.jobs.rows, job.receiptId ≠ row.id

/-- The answers to the requests for the pages of a list. -/
structure Partitions (db : Database) (request : ReceiptListRequest) (receipts : List Receipt)
    (answer : ReceiptListRequest → Except Failure ReceiptPageResponse) : Prop where
  answered : ∀ page, (request.at_ page).validate = .ok () →
    ∃ response, answer (request.at_ page) = .ok response
  pages : ∃ totalPages, ∃ responses : List ReceiptPageResponse,
    (∀ page response, answer (request.at_ page) = .ok response →
      response.totalPages = totalPages) ∧
    List.Forall₂ (fun page response => answer (request.at_ page) = .ok response)
      (List.range totalPages) responses ∧
    List.Forall₂ (ReceiptListItemResponse.Shows db) receipts (responses.flatMap (·.content))
  totalElements : ∀ page response, answer (request.at_ page) = .ok response →
    response.totalElements = receipts.length
  hasNext : ∀ page response, answer (request.at_ page) = .ok response →
    (response.hasNext = true ↔ ∃ later response', page < later ∧
      answer (request.at_ later) = .ok response' ∧ response'.content ≠ [])

/-- A list of the receipts that belong to it: its pages are a partition as long as
their number fits into an `int`, and no request for it misses a receipt. -/
def Lawful (db : Database) (belongs : Receipt → Prop) (request : ReceiptListRequest)
    (answer : ReceiptListRequest → Except Failure ReceiptPageResponse) : Prop :=
  (∃ receipts, IsListing db belongs request receipts ∧
    (receipts.length ≤ 2147483647 → Partitions db request receipts answer)) ∧
  ∀ request id, answer request ≠ .error (.receiptNotFound id)

/-- The receipt waits for a reviewer, and the employee is not its owner. -/
def AwaitsReview (reviewer : Employee) (receipt : Receipt) : Prop :=
  (∃ owner, receipt.ownerEmployeeId = some owner ∧ owner ≠ reviewer.id) ∧
    ∃ status ∈ REVIEW_PENDING_STATUSES, receipt.status = some status

variable {db : Database} {session : Session} {employee : Employee} {request : ReceiptListRequest}
variable {receipts : List Receipt} {receipt : Receipt} {fetch : Fetch}

/-! ## Requests -/

/-- The bounds that a query compares with are the first instants of dates. -/
theorem between_iff_covers :
    ReceiptRepository.requested request.status request.fromInclusive request.toExclusive receipt =
      some true ↔ request.Covers receipt := by
  have hkeeps : KeepsDates ReceiptListRequest.BUSINESS_ZONE.offset
      ReceiptListRequest.BUSINESS_ZONE.transitions := asiaSeoul_keepsDates
  rw [ReceiptRepository.requested_eq_true]
  constructor
  · rintro ⟨hstatus, hfrom, hto⟩
    refine ⟨hstatus, ?_, ?_⟩
    · intro date hdate
      exact (ZoneRules.le_localDate_iff hkeeps).mpr
        (hfrom _ (Option.mem_map_of_mem _ hdate))
    · intro date hdate
      exact (ZoneRules.localDate_le_iff hkeeps).mpr (hto _ (Option.mem_map_of_mem _ hdate))
  · rintro ⟨hstatus, hfrom, hto⟩
    refine ⟨hstatus, ?_, ?_⟩
    · intro bound hbound
      obtain ⟨date, hdate, rfl⟩ := Option.map_eq_some_iff.mp hbound
      exact (ZoneRules.le_localDate_iff hkeeps).mp (hfrom date hdate)
    · intro bound hbound
      obtain ⟨date, hdate, rfl⟩ := Option.map_eq_some_iff.mp hbound
      exact (ZoneRules.localDate_le_iff hkeeps).mp (hto date hdate)

/-- Another page is accepted unless its offset is too large. -/
theorem validate_at_iff (h : request.validate = .ok ()) {page : ℕ} :
    (request.at_ page).validate = .ok () ↔ page * request.size ≤ 2147483647 := by
  obtain ⟨⟨-, hsize, hlarge, -⟩, hdates, hyears⟩ := ReceiptListRequest.validate_eq_ok.mp h
  rw [ReceiptListRequest.validate_eq_ok]
  constructor
  · rintro ⟨⟨-, -, -, hoffset⟩, -⟩
    exact hoffset
  · intro hoffset
    exact ⟨⟨Int.natCast_nonneg page, hsize, hlarge, hoffset⟩, hdates, hyears⟩

/-! ## Rows -/

instance : Std.Total listedBefore where
  total a b := by
    unfold listedBefore
    rcases lt_trichotomy a.createdAt b.createdAt with hlt | heq | hgt
    · exact .inr (.inl hlt)
    · rcases le_total a.id b.id with hid | hid
      · exact .inr (.inr ⟨heq, hid⟩)
      · exact .inl (.inr ⟨heq.symm, hid⟩)
    · exact .inl (.inl hgt)

instance : IsTrans Receipt listedBefore where
  trans a b c hab hbc := by
    rcases hab with hab | ⟨hab, hid⟩
    · rcases hbc with hbc | ⟨hbc, -⟩
      · exact .inl (hbc.trans hab)
      · exact .inl (hbc ▸ hab)
    · rcases hbc with hbc | ⟨hbc, hid'⟩
      · exact .inl (hab ▸ hbc)
      · exact .inr ⟨hbc.trans hab, hid'.trans hid⟩

/-- The rows of a query are the listing of its condition. -/
theorem isListing_listed {belongs : Receipt → Prop} {condition : Receipt → Truth}
    (hcondition : ∀ receipt, condition receipt = some true ↔
      belongs receipt ∧ request.Covers receipt) :
    IsListing db belongs request (ReceiptRepository.listed condition db) := by
  constructor
  · intro receipt
    rw [ReceiptRepository.mem_listed, hcondition]
  · have hsorted : (ReceiptRepository.listed condition db).Pairwise listedBefore :=
      List.pairwise_insertionSort listedBefore _
    have hperm : (ReceiptRepository.listed condition db).Perm
        (Truth.select condition db.receipts.rows) := List.perm_insertionSort listedBefore _
    have hkeys : ((Truth.select condition db.receipts.rows).map (·.id)).Nodup :=
      db.receipts.keys_nodup.sublist (List.filter_sublist.map _)
    have hids : (ReceiptRepository.listed condition db).Pairwise fun a b => a.id ≠ b.id :=
      List.pairwise_map.mp ((hperm.map _).nodup_iff.mpr hkeys)
    refine (hsorted.and hids).imp ?_
    rintro a b ⟨hlater | ⟨hsame, hle⟩, hid⟩
    · exact .inl hlater
    · exact .inr ⟨hsame, lt_of_le_of_ne hle hid.symm⟩

/-- The statuses that a page shows are those of the jobs of its receipts. -/
theorem shows_item (hmem : receipt.reread ∈ receipts) :
    ReceiptListItemResponse.Shows db receipt
      (.ofReceipt receipt.reread (findJobStatuses fetch db receipts receipt.id)) := by
  have hne : receipts ≠ [] := List.ne_nil_of_mem hmem
  refine ⟨rfl, rfl, rfl, rfl, rfl, ?_, ?_, rfl, rfl, rfl, ?_, ?_⟩
  · cases hdata : receipt.currentData <;>
      simp [ReceiptListItemResponse.ofReceipt, hdata, ReceiptData.rebuild, ReceiptData.of]
  · cases hdata : receipt.currentData <;>
      simp [ReceiptListItemResponse.ofReceipt, hdata, ReceiptData.rebuild, ReceiptData.of]
  · intro status hstatus
    simp only [ReceiptListItemResponse.ofReceipt, findJobStatuses, if_neg hne] at hstatus
    obtain ⟨job, hjob, hid, rfl⟩ := indexBy_eq_some hstatus
    exact ⟨job, (Fetch.mem_findByReceiptIdIn.mp hjob).1, hid, rfl⟩
  · intro hnone job hjob hid
    simp only [ReceiptListItemResponse.ofReceipt, findJobStatuses, if_neg hne,
      indexBy_eq_none_iff] at hnone
    have hasked : job.receiptId ∈ receipts.map (·.id) :=
      List.mem_map.mpr ⟨receipt.reread, hmem, hid.symm⟩
    exact hnone job (Fetch.mem_findByReceiptIdIn.mpr ⟨hjob, hasked⟩) hid

/-- A page shows a window of the rows. -/
theorem shows_content (pageable : PageRequest) :
    List.Forall₂ (ReceiptListItemResponse.Shows db)
      (window receipts pageable.size pageable.page)
      (createPageResponse fetch db (.slice (receipts.map Receipt.reread) pageable)).content := by
  simp only [createPageResponse, Page.slice, map_window, List.map_map]
  rw [List.forall₂_map_right_iff, List.forall₂_same]
  exact fun row hrow => shows_item (List.mem_map_of_mem hrow)

/-! ## Pages -/

/-- The answers to accepted requests show windows of the rows as they are read, which do
not depend on the page; other requests are refused for what is wrong with them. -/
structure Windowed (db : Database) (rowsOf : ReceiptListRequest → List Receipt)
    (answer : ReceiptListRequest → Except Failure ReceiptPageResponse) : Prop where
  rowsOf_at : ∀ request page, rowsOf (request.at_ page) = rowsOf request
  accepted : ∀ request, request.validate = .ok () → ∃ fetch pageable,
    (pageable.page : ℤ) = request.page ∧ (pageable.size : ℤ) = request.size ∧
      answer request = .ok (createPageResponse fetch db
        (.slice ((rowsOf request).map Receipt.reread) pageable))
  refused : ∀ request e, request.validate = .error e → answer request = .error e

section Pages

variable {rowsOf : ReceiptListRequest → List Receipt}
variable {answer : ReceiptListRequest → Except Failure ReceiptPageResponse}
variable (hwindowed : Windowed db rowsOf answer)

include hwindowed

theorem Windowed.accepted_at {page : ℕ} (h : (request.at_ page).validate = .ok ()) :
    ∃ fetch pageable, pageable.page = page ∧ (pageable.size : ℤ) = request.size ∧
      answer (request.at_ page) = .ok (createPageResponse fetch db
        (.slice ((rowsOf request).map Receipt.reread) pageable)) := by
  obtain ⟨fetch, pageable, hpage, hsize, hresponse⟩ := hwindowed.accepted _ h
  rw [hwindowed.rowsOf_at] at hresponse
  exact ⟨fetch, pageable, Int.natCast_inj.mp hpage, hsize, hresponse⟩

theorem Windowed.of_ok {request : ReceiptListRequest} {response : ReceiptPageResponse}
    (h : answer request = .ok response) :
    ∃ fetch pageable, (pageable.page : ℤ) = request.page ∧ (pageable.size : ℤ) = request.size ∧
      response = createPageResponse fetch db
        (.slice ((rowsOf request).map Receipt.reread) pageable) := by
  cases hvalid : request.validate with
  | error e =>
      rw [hwindowed.refused _ e hvalid] at h
      exact absurd h (by simp)
  | ok _ =>
      obtain ⟨fetch, pageable, hpage, hsize, hresponse⟩ := hwindowed.accepted _ hvalid
      rw [hresponse] at h
      exact ⟨fetch, pageable, hpage, hsize, (Except.ok.inj h).symm⟩

theorem Windowed.of_ok_at {page : ℕ} {response : ReceiptPageResponse}
    (h : answer (request.at_ page) = .ok response) :
    ∃ fetch pageable, pageable.page = page ∧ (pageable.size : ℤ) = request.size ∧
      response = createPageResponse fetch db
        (.slice ((rowsOf request).map Receipt.reread) pageable) := by
  obtain ⟨fetch, pageable, hpage, hsize, hresponse⟩ := hwindowed.of_ok h
  rw [hwindowed.rowsOf_at] at hresponse
  exact ⟨fetch, pageable, Int.natCast_inj.mp hpage, hsize, hresponse⟩

/-- A page of the partition is asked for successfully. -/
theorem Windowed.of_lt (hvalid : request.validate = .ok ())
    (hrows : (rowsOf request).length ≤ 2147483647) {page : ℕ}
    (hpage : page < windowCount (rowsOf request).length request.size.toNat) :
    ∃ response, answer (request.at_ page) = .ok response ∧
      List.Forall₂ (ReceiptListItemResponse.Shows db)
        (window (rowsOf request) request.size.toNat page) response.content := by
  obtain ⟨⟨-, hsize, -⟩, -⟩ := ReceiptListRequest.validate_eq_ok.mp hvalid
  have hoffset : page * request.size.toNat < (rowsOf request).length :=
    (lt_windowCount_iff (by omega)).mp hpage
  have haccepted : (request.at_ page).validate = .ok () := by
    rw [validate_at_iff hvalid]
    calc (page : ℤ) * request.size
        = ((page * request.size.toNat : ℕ) : ℤ) := by
          rw [Nat.cast_mul, Int.toNat_of_nonneg (by omega)]
      _ ≤ 2147483647 := by omega
  obtain ⟨fetch, pageable, rfl, hpageable, hresponse⟩ := hwindowed.accepted_at haccepted
  refine ⟨_, hresponse, ?_⟩
  rw [← hpageable, Int.toNat_natCast]
  exact shows_content pageable

/-- The pages up to the last one show all of the receipts. -/
theorem Windowed.pages (hvalid : request.validate = .ok ())
    (hrows : (rowsOf request).length ≤ 2147483647) :
    ∃ responses : List ReceiptPageResponse,
      List.Forall₂ (fun page response => answer (request.at_ page) = .ok response)
        (List.range (windowCount (rowsOf request).length request.size.toNat)) responses ∧
      List.Forall₂ (ReceiptListItemResponse.Shows db) (rowsOf request)
        (responses.flatMap (·.content)) := by
  obtain ⟨⟨-, hsize, -⟩, -⟩ := ReceiptListRequest.validate_eq_ok.mp hvalid
  set totalPages := windowCount (rowsOf request).length request.size.toNat with htotal
  have hpage : ∀ page, ∃ response, page < totalPages → answer (request.at_ page) = .ok response ∧
      List.Forall₂ (ReceiptListItemResponse.Shows db)
        (window (rowsOf request) request.size.toNat page) response.content := by
    intro page
    by_cases hlt : page < totalPages
    · obtain ⟨response, hresponse⟩ := hwindowed.of_lt hvalid hrows hlt
      exact ⟨response, fun _ => hresponse⟩
    · exact ⟨⟨[], 0, 0, 0, 0, false⟩, fun h => absurd h hlt⟩
  choose response hresponse using hpage
  have hforall : List.Forall₂ (fun page response => answer (request.at_ page) = .ok response ∧
      List.Forall₂ (ReceiptListItemResponse.Shows db)
        (window (rowsOf request) request.size.toNat page) response.content)
      (List.range totalPages) ((List.range totalPages).map response) := by
    rw [List.forall₂_map_right_iff, List.forall₂_same]
    exact fun page hmem => hresponse page (List.mem_range.mp hmem)
  have hwindows : List.Forall₂ (ReceiptListItemResponse.Shows db)
      ((List.range totalPages).flatMap (window (rowsOf request) request.size.toNat))
      (((List.range totalPages).map response).flatMap (·.content)) :=
    List.rel_flatMap (hforall.imp fun _ _ h => h.2) (fun _ _ h => h)
  rw [htotal, flatMap_window (rowsOf request) (by omega)] at hwindows
  exact ⟨_, hforall.imp fun _ _ h => h.1, hwindows⟩

/-- There is a next page as long as a later one shows something. -/
theorem Windowed.hasNext_iff (hvalid : request.validate = .ok ())
    (hrows : (rowsOf request).length ≤ 2147483647) {page : ℕ} {response : ReceiptPageResponse}
    (hok : answer (request.at_ page) = .ok response) :
    response.hasNext = true ↔ ∃ later response', page < later ∧
      answer (request.at_ later) = .ok response' ∧ response'.content ≠ [] := by
  obtain ⟨fetch, pageable, rfl, hpageable, rfl⟩ := hwindowed.of_ok_at hok
  have hnext : (createPageResponse fetch db
      (.slice ((rowsOf request).map Receipt.reread) pageable)).hasNext = true ↔
      ∃ later, pageable.page < later ∧ window (rowsOf request) pageable.size later ≠ [] := by
    refine Page.hasNext_slice_iff.trans (exists_congr fun later => and_congr_right fun _ => ?_)
    rw [map_window, ne_eq, List.map_eq_nil_iff]
  rw [hnext]
  constructor
  · rintro ⟨later, hlater, hne⟩
    -- a window that is not empty lies within the rows
    have hlt : later < windowCount (rowsOf request).length request.size.toNat := by
      rw [← hpageable, Int.toNat_natCast, lt_windowCount_iff pageable.size_pos,
        ← window_ne_nil_iff pageable.size_pos]
      exact hne
    obtain ⟨response', hresponse', hshows⟩ := hwindowed.of_lt hvalid hrows hlt
    refine ⟨later, response', hlater, hresponse', ?_⟩
    intro hnil
    rw [hnil, List.forall₂_nil_right_iff, ← hpageable, Int.toNat_natCast] at hshows
    exact hne hshows
  · rintro ⟨later, response', hlater, hresponse', hne⟩
    obtain ⟨fetch', pageable', rfl, hpageable', rfl⟩ := hwindowed.of_ok_at hresponse'
    have hsame : pageable'.size = pageable.size := by omega
    -- an empty window shows nothing
    refine ⟨pageable'.page, hlater, ?_⟩
    intro hnil
    apply hne
    simp [createPageResponse, Page.slice, map_window, hsame, hnil]

theorem Windowed.partitions (hvalid : request.validate = .ok ())
    (hrows : (rowsOf request).length ≤ 2147483647) :
    Partitions db request (rowsOf request) answer := by
  obtain ⟨responses, hresponses, hshows⟩ := hwindowed.pages hvalid hrows
  constructor
  · intro page haccepted
    obtain ⟨_, _, -, -, hresponse⟩ := hwindowed.accepted_at haccepted
    exact ⟨_, hresponse⟩
  · refine ⟨_, responses, ?_, hresponses, hshows⟩
    intro page response hok
    obtain ⟨fetch, pageable, -, hpageable, rfl⟩ := hwindowed.of_ok_at hok
    rw [← hpageable, Int.toNat_natCast]
    show windowCount ((rowsOf request).map Receipt.reread).length pageable.size = _
    rw [List.length_map]
  · intro page response hok
    obtain ⟨fetch, pageable, -, -, rfl⟩ := hwindowed.of_ok_at hok
    exact List.length_map _
  · exact fun page response hok => hwindowed.hasNext_iff hvalid hrows hok

theorem Windowed.lawful {belongs : Receipt → Prop} (hvalid : request.validate = .ok ())
    (hlisting : IsListing db belongs request (rowsOf request)) :
    Lawful db belongs request answer := by
  refine ⟨⟨rowsOf request, hlisting, hwindowed.partitions hvalid⟩, ?_⟩
  intro asked id
  cases hasked : asked.validate with
  | error e =>
      obtain ⟨message, rfl⟩ := ReceiptListRequest.validate_eq_error hasked
      rw [hwindowed.refused _ _ hasked]
      simp
  | ok _ =>
      obtain ⟨_, _, -, -, hresponse⟩ := hwindowed.accepted _ hasked
      rw [hresponse]
      simp

end Pages

/-! ## The two lists -/

section Lists

variable (hemployee : getCurrentEmployee db.employees session = .ok employee)

include hemployee

theorem windowed_findMyReceipts (fetch : ReceiptListRequest → Fetch) :
    Windowed db
      (fun request => ReceiptRepository.listed (ReceiptRepository.myReceipts employee.id
        request.status request.fromInclusive request.toExclusive) db)
      fun request => findMyReceipts (fetch request) db session request := by
  constructor
  · exact fun _ _ => rfl
  · intro request hvalid
    obtain ⟨pageable, hpageable, hpage, hsize⟩ := ReceiptListRequest.pageable_of_validate hvalid
    exact ⟨_, pageable, hpage, hsize, findMyReceipts_eq_ok hemployee hvalid hpageable⟩
  · intro request e hvalid
    simp only [findMyReceipts, hvalid]
    rfl

theorem windowed_findReviewQueue {authority : Option EmployeeRole}
    (hauthority : authority = some .reviewer ∨ authority = some .admin)
    (fetch : ReceiptListRequest → Fetch) :
    Windowed db
      (fun request => ReceiptRepository.listed (ReceiptRepository.reviewQueue employee.id
        REVIEW_PENDING_STATUSES request.status request.fromInclusive request.toExclusive) db)
      fun request => findReviewQueue (fetch request) db authority session request := by
  constructor
  · exact fun _ _ => rfl
  · intro request hvalid
    obtain ⟨pageable, hpageable, hpage, hsize⟩ := ReceiptListRequest.pageable_of_validate hvalid
    exact ⟨_, pageable, hpage, hsize,
      findReviewQueue_eq_ok hemployee hauthority hvalid hpageable⟩
  · intro request e hvalid
    have hgranted : preAuthorize authority = .ok () := by
      rcases hauthority with rfl | rfl <;> rfl
    simp only [findReviewQueue, hgranted, hvalid]
    rfl

end Lists

/-- On one state of the database, whatever order rows are fetched in, the pages of an
accepted request for the review queue or for the own receipts are a partition of the
receipts that belong to the list and are asked for, in the order of the list. -/
theorem lists_lawful (hemployee : getCurrentEmployee db.employees session = .ok employee)
    (hvalid : request.validate = .ok ()) (fetch : ReceiptListRequest → Fetch) :
    (∀ authority, authority = some .reviewer ∨ authority = some .admin →
      Lawful db (AwaitsReview employee) request
        fun request => findReviewQueue (fetch request) db authority session request) ∧
    Lawful db (fun receipt => receipt.ownerEmployeeId = some employee.id) request
      fun request => findMyReceipts (fetch request) db session request := by
  constructor
  · intro authority hauthority
    apply (windowed_findReviewQueue hemployee hauthority fetch).lawful hvalid
    apply isListing_listed
    intro receipt
    rw [ReceiptRepository.reviewQueue, Truth.and_eq_true, ReceiptRepository.reviewable_eq_true,
      between_iff_covers]
    rfl
  · apply (windowed_findMyReceipts hemployee fetch).lawful hvalid
    apply isListing_listed
    intro receipt
    rw [ReceiptRepository.myReceipts, Truth.and_eq_true, ReceiptRepository.ownedBy_eq_true,
      between_iff_covers]

namespace Sample

/-- A receipt that waits for a reviewer. -/
def waiting (id owner : Long) (createdAt : Instant) : Receipt :=
  { Receipt.new company (sha256 [id.toNat.toUInt8]) none none 1 none (some .needsReview) []
      createdAt with
    id
    ownerEmployeeId := some owner }

/-- The first instant of 1 March 2024 in Korea. -/
def firstOfMarch : Instant := 1709218800000000000

/-- Receipts that were submitted at the start of a day, and one from just before it. -/
def waitingReceipts : Database :=
  { Database.initial staff with
    receipts := {
      rows := [waiting 1 1 (firstOfMarch - 1), waiting 2 1 firstOfMarch, waiting 3 2 firstOfMarch,
        waiting 4 3 firstOfMarch, waiting 5 1 firstOfMarch]
      keys_nodup := by decide } }

/-- The receipts of 1 March 2024, two on a page. -/
def marchRequest : ReceiptListRequest :=
  .of none (some 19783) (some 19783) none (some 2)

/-- A database that returns rows backwards. -/
def backwards : Fetch where
  receipts := List.reverse
  jobs := List.reverse
  receipts_perm := List.reverse_perm
  jobs_perm := List.reverse_perm

end Sample

open Sample in
/-- A reviewer sees the receipts of the day except the own one, the last one first. -/
example :
    ((findReviewQueue backwards waitingReceipts (some .reviewer) (login 2 "reviewer")
      marchRequest).map fun response => (response.content.map (·.id), response.totalElements)) =
      .ok ([5, 4], 3) := by
  decide +kernel

open Sample in
/-- The lists of a reviewer. -/
theorem marchRequest_lawful :
    (∀ authority, authority = some .reviewer ∨ authority = some .admin →
      Lawful waitingReceipts (AwaitsReview (account 2 "reviewer" .reviewer)) marchRequest
        fun request => findReviewQueue backwards waitingReceipts authority (login 2 "reviewer")
          request) ∧
    Lawful waitingReceipts (fun receipt => receipt.ownerEmployeeId = some 2) marchRequest
      fun request => findMyReceipts backwards waitingReceipts (login 2 "reviewer") request :=
  lists_lawful rfl (by decide +kernel) fun _ => backwards

end ReceiptReview
