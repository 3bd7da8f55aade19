import Mathlib.Data.List.Forall2
import ReceiptReview.Lifecycle.Runs
import ReceiptReview.Results.Listing

/-!
# The queue, the permission to read and the decision

Who may do what with a receipt is written three times: in the conditions of the
two list queries, in `validateReadPermission`, and in the guards of a decision.
The queue of a reviewer holds the receipts that the reviewer can reject, those
apart that were approved automatically; and the rows of both lists can be read.

The owner of a receipt never changes and every receipt has a job, so a row that
was listed leads to the receipt, its events and its image ever after.
-/

namespace ReceiptReview

open Java Store Outcome ReceiptCase ReceiptQueryService ReceiptCommandService CurrentEmployeeService

variable {db : Database} {session : Session} {employee : Employee} {receipt : Receipt}
variable {P : Platform} {employees : Table Employee} {trace earlier : List Commit}

/-! ## The queue -/

/-- Some page of the unfiltered queue shows the receipt. -/
def InReviewQueue (db : Database) (reviewer : Employee) (receipt : Receipt) : Prop :=
  ∃ pageable, receipt.id ∈ (ReceiptRepository.findReviewQueueIds db reviewer.id
    REVIEW_PENDING_STATUSES none none none pageable).content

/-- Some answer to an unfiltered request for the queue shows the receipt; the authority
of a request is the role of the account that it is made for. -/
def ShownInReviewQueue (fetch : ReceiptListRequest → Fetch) (db : Database) (session : Session)
    (reviewer : Employee) (receipt : Receipt) : Prop :=
  ∃ page size response,
    findReviewQueue (fetch ⟨none, none, none, page, size⟩) db (some reviewer.role) session
      ⟨none, none, none, page, size⟩ = .ok response ∧
    ∃ item ∈ response.content, item.id = receipt.id

theorem awaitsReview_iff_reviewQueue {reviewer : Employee} :
    ReceiptRepository.reviewQueue reviewer.id REVIEW_PENDING_STATUSES none none none receipt =
      some true ↔ AwaitsReview reviewer receipt := by
  rw [ReceiptRepository.reviewQueue, Truth.and_eq_true, ReceiptRepository.reviewable_eq_true,
    ReceiptRepository.requested_eq_true, AwaitsReview]
  simp

/-- A stored receipt is listed under its id alone. -/
theorem mem_map_listed_iff {condition : Receipt → Truth}
    (hstored : db.receiptRow receipt.id = some receipt) :
    receipt.id ∈ (ReceiptRepository.listed condition db).map (·.id) ↔
      condition receipt = some true := by
  have hrow : receipt ∈ db.receipts.rows := Table.mem_of_find? hstored
  constructor
  · intro hmem
    obtain ⟨listed, hlisted, hid⟩ := List.mem_map.mp hmem
    obtain ⟨hother, hcondition⟩ := ReceiptRepository.mem_listed.mp hlisted
    rwa [List.inj_on_of_nodup_map db.receipts.keys_nodup hother hrow hid] at hcondition
  · intro hcondition
    exact List.mem_map_of_mem (ReceiptRepository.mem_listed.mpr ⟨hrow, hcondition⟩)

theorem inReviewQueue_iff (hstored : db.receiptRow receipt.id = some receipt) :
    InReviewQueue db employee receipt ↔ AwaitsReview employee receipt := by
  rw [← awaitsReview_iff_reviewQueue, ← mem_map_listed_iff hstored]
  simp only [InReviewQueue, ReceiptRepository.findReviewQueueIds_eq_slice, Page.slice]
  constructor
  · rintro ⟨pageable, hmem⟩
    exact mem_of_mem_window hmem
  · intro hmem
    -- one page that is large enough for all rows
    refine ⟨⟨0, _, List.length_pos_of_mem hmem⟩, ?_⟩
    rw [window, Nat.zero_mul, List.drop_zero, List.take_length]
    exact hmem

theorem authority_of_role (hrole : employee.role ≠ .employee) :
    some employee.role = some EmployeeRole.reviewer ∨
      some employee.role = some EmployeeRole.admin := by
  cases hcase : employee.role with
  | employee => exact absurd hcase hrole
  | reviewer => exact .inl rfl
  | admin => exact .inr rfl

/-- The items of a page are those of rows. -/
theorem exists_of_mem_createPageResponse {fetch : Fetch} {rows : List Receipt}
    {pageable : PageRequest} {item : ReceiptListItemResponse}
    (h : item ∈ (createPageResponse fetch db (.slice (rows.map Receipt.reread) pageable)).content) :
    ∃ row ∈ rows, item.id = row.id := by
  obtain ⟨row, hrow, hshows⟩ := exists_of_forall₂_right (shows_content pageable) h
  exact ⟨row, mem_of_mem_window hrow, hshows.id⟩

/-- As long as an offset reaches every row, the answers show the whole queue. -/
theorem shownInReviewQueue_iff
    (hemployee : getCurrentEmployee db.employees session = .ok employee)
    (hrole : employee.role ≠ .employee) (hstored : db.receiptRow receipt.id = some receipt)
    (hrows : db.receipts.rows.length ≤ 2147483647) (fetch : ReceiptListRequest → Fetch) :
    ShownInReviewQueue fetch db session employee receipt ↔ InReviewQueue db employee receipt := by
  have hwindowed := windowed_findReviewQueue hemployee (authority_of_role hrole) fetch
  rw [inReviewQueue_iff hstored, ← awaitsReview_iff_reviewQueue]
  constructor
  · rintro ⟨page, size, response, hresponse, item, hitem, hid⟩
    obtain ⟨_, pageable, -, -, rfl⟩ := hwindowed.of_ok hresponse
    obtain ⟨listed, hlisted, hsame⟩ := exists_of_mem_createPageResponse hitem
    rw [← mem_map_listed_iff hstored, ← hid, hsame]
    exact List.mem_map_of_mem hlisted
  · intro hcondition
    set rows := ReceiptRepository.listed (ReceiptRepository.reviewQueue employee.id
      REVIEW_PENDING_STATUSES none none none) db with hdef
    have hmem : receipt ∈ rows :=
      ReceiptRepository.mem_listed.mpr ⟨Table.mem_of_find? hstored, hcondition⟩
    have hlength : rows.length ≤ 2147483647 := by
      rw [hdef, ← ReceiptRepository.count_eq]
      exact (List.length_filter_le _ _).trans hrows
    rw [← flatMap_window rows (by norm_num : 0 < 100), List.mem_flatMap] at hmem
    obtain ⟨page, hpage, hwindow⟩ := hmem
    have hvalid : (⟨none, none, none, 0, 100⟩ : ReceiptListRequest).validate = .ok () := rfl
    obtain ⟨response, hresponse, hshows⟩ :=
      hwindowed.of_lt hvalid hlength (List.mem_range.mp hpage)
    obtain ⟨item, hitem, hshown⟩ := exists_of_forall₂_left hshows hwindow
    exact ⟨page, 100, response, hresponse, item, hitem, hshown.id⟩

/-! ## Decisions -/

theorem validateEditableStatus_eq_ok :
    validateEditableStatus receipt = .ok () ↔
      ∃ status, receipt.status = some status ∧ status ≠ .approved ∧ status ≠ .rejected := by
  unfold validateEditableStatus
  cases hstatus : receipt.status with
  | none => simp
  | some status => cases status <;> simp

/-- A commit that writes one receipt back succeeds while the receipt is current. -/
theorem exists_commit_receipt {changed stored : Receipt} (events : List AuditEvent)
    (hstored : db.receiptRow changed.id = some stored)
    (hversion : stored.version = changed.version) :
    ∃ db', db.commit P { receipts := [changed], events } = .ok db' := by
  obtain ⟨receipts, hreceipts⟩ := Table.exists_flush_singleton (t := db.receipts) hstored hversion
  simp [Database.commit, Database.flush, hreceipts]

/-- The transaction, run alone on the database, returns a result. -/
def Accepts (P : Platform) (db : Database)
    (body : Database → Except Failure (Receipt × Database.Changes)) : Prop :=
  ∃ result, (db.transact P db body).1 = .ok result

theorem accepts_iff {body : Database → Except Failure (Receipt × Database.Changes)} :
    Accepts P db body ↔
      ∃ result changes db', body db = .ok (result, changes) ∧ db.commit P changes = .ok db' := by
  unfold Accepts Database.transact
  cases hbody : body db with
  | error e => simp
  | ok answer =>
      obtain ⟨result, changes⟩ := answer
      cases hcommit : db.commit P changes with
      | error e => simp [hcommit]
      | ok db' => simp [hcommit]

/-- Under the stored version a decision meets three guards, an approval the third alone. -/
theorem accepts_decide_iff (hemployee : getCurrentEmployee db.employees session = .ok employee)
    (hstored : db.receiptRow receipt.id = some receipt) {decision : ReviewDecision}
    {note : Option JString} {now : Instant} :
    (Accepts P db fun db => ReceiptCommandService.decide db session receipt.id receipt.version
      decision note now) ↔
    validateReviewPermission receipt employee = .ok () ∧
      validateEditableStatus receipt = .ok () ∧
      (decision = .approve → validateApproval receipt.reread = .ok ()) := by
  rw [accepts_iff]
  constructor
  · rintro ⟨result, changes, db', hdecide, -⟩
    obtain ⟨employee', receipt', hemployee', hreceipt', hpermission, -, heditable, happroval, -⟩ :=
      decide_eq_ok hdecide
    rw [hemployee] at hemployee'
    rw [hstored] at hreceipt'
    cases hemployee'
    cases hreceipt'
    exact ⟨hpermission, heditable, happroval⟩
  · rintro ⟨hpermission, heditable, happroval⟩
    obtain ⟨db', hcommit⟩ : ∃ db', db.commit P {
        receipts := [receipt.reread.changeStatus (decidedStatus decision) now]
        events := [decidedEvent employee receipt.reread decision note now] } = .ok db' :=
      exists_commit_receipt _ hstored rfl
    refine ⟨(receipt.reread.changeStatus (decidedStatus decision) now).flushed, _, db', ?_, hcommit⟩
    -- the guards ask for nothing that reading back would change
    have hpermission' : validateReviewPermission receipt.reread employee = .ok () := hpermission
    have heditable' : validateEditableStatus receipt.reread = .ok () := heditable
    have happroves : (if decision = .approve then validateApproval receipt.reread else .ok ()) =
        .ok () := by
      split
      · exact happroval ‹_›
      · rfl
    simp [ReceiptCommandService.decide, findReceipt, Database.findReceipt_of_receiptRow hstored,
      ensureVersion, throwIf, orElseThrow, hemployee, hpermission', heditable', happroves, bind,
      Except.bind, pure, Except.pure]

/-- A rejection under the stored version meets no other guards. -/
theorem reject_ok_iff (hemployee : getCurrentEmployee db.employees session = .ok employee)
    (hstored : db.receiptRow receipt.id = some receipt) {note : Option JString} {now : Instant} :
    (∃ result, (db.transact P db fun snapshot => ReceiptCommandService.decide snapshot session
      receipt.id receipt.version .reject note now).1 = .ok result) ↔
    validateReviewPermission receipt employee = .ok () ∧
      validateEditableStatus receipt = .ok () := by
  refine (accepts_decide_iff hemployee hstored).trans ?_
  simp

/-- A reviewer can reject what waits for a review, and what was approved automatically. -/
theorem awaitsReview_iff (hrole : employee.role ≠ .employee) :
    AwaitsReview employee receipt ↔
      (validateReviewPermission receipt employee = .ok () ∧
        validateEditableStatus receipt = .ok ()) ∧ receipt.status ≠ some .autoApproved := by
  rw [validateReviewPermission_eq_ok, validateEditableStatus_eq_ok]
  constructor
  · rintro ⟨⟨owner, howner, hother⟩, status, hpending, hstatus⟩
    refine ⟨⟨⟨hrole, owner, howner, hother.symm⟩, status, hstatus, ?_⟩, ?_⟩
    · constructor
      · rintro rfl
        exact absurd hpending (by decide)
      · rintro rfl
        exact absurd hpending (by decide)
    · rintro hauto
      rw [hauto] at hstatus
      cases hstatus
      exact absurd hpending (by decide)
  · rintro ⟨⟨⟨-, owner, howner, hother⟩, status, hstatus, hopen⟩, hauto⟩
    refine ⟨⟨owner, howner, hother.symm⟩, status, ?_, hstatus⟩
    rw [hstatus, ne_eq, Option.some.injEq] at hauto
    cases status with
    | autoApproved => exact absurd rfl hauto
    | approved => exact absurd rfl hopen.1
    | rejected => exact absurd rfl hopen.2
    | needsReview | manualEntry | needsRecapture | unreadable => decide

/-! ## Rows of the lists -/

/-- A page of one of the lists of the employee shows the item; the authority of a
request is the role of the account it is made for. -/
inductive Listed (db : Database) (session : Session) (employee : Employee)
    (item : ReceiptListItemResponse) : Prop
  | mine {fetch : Fetch} {request : ReceiptListRequest} {response : ReceiptPageResponse}
      (hresponse : findMyReceipts fetch db session request = .ok response)
      (hitem : item ∈ response.content)
  | queue {fetch : Fetch} {request : ReceiptListRequest} {response : ReceiptPageResponse}
      (hresponse : findReviewQueue fetch db (some employee.role) session request = .ok response)
      (hitem : item ∈ response.content)

/-- The owner has the receipt in a list of own receipts, or it has an owner and the
reader is a reviewer. -/
def Readable (receipt : Receipt) (employee : Employee) : Prop :=
  receipt.ownerEmployeeId = some employee.id ∨
    employee.role ≠ .employee ∧ receipt.ownerEmployeeId ≠ none

theorem validateReadPermission_of_readable (h : Readable receipt employee) :
    validateReadPermission receipt employee = .ok () := by
  unfold validateReadPermission
  rcases h with howner | ⟨hrole, howner⟩
  · simp [howner]
  · cases hsome : receipt.ownerEmployeeId with
    | none => exact absurd hsome howner
    | some owner => simp [hrole]

/-- Rows of the lists are stored receipts that the employee can read. -/
theorem Listed.readable {item : ReceiptListItemResponse}
    (hemployee : getCurrentEmployee db.employees session = .ok employee)
    (h : Listed db session employee item) :
    ∃ receipt, db.receiptRow item.id = some receipt ∧ Readable receipt employee := by
  cases h with
  | @mine fetch _ _ hresponse hitem =>
      obtain ⟨_, pageable, -, -, rfl⟩ :=
        (windowed_findMyReceipts hemployee fun _ => fetch).of_ok hresponse
      obtain ⟨receipt, hreceipt, hid⟩ := exists_of_mem_createPageResponse hitem
      obtain ⟨hrow, hcondition⟩ := ReceiptRepository.mem_listed.mp hreceipt
      rw [ReceiptRepository.myReceipts, Truth.and_eq_true,
        ReceiptRepository.ownedBy_eq_true] at hcondition
      exact ⟨receipt, hid ▸ Table.find?_of_mem hrow, .inl hcondition.1⟩
  | @queue fetch _ _ hresponse hitem =>
      by_cases hrole : employee.role = .employee
      · rw [hrole] at hresponse
        exact absurd hresponse (by simp [findReviewQueue, preAuthorize, throwIf, bind, Except.bind])
      · obtain ⟨_, pageable, -, -, rfl⟩ := (windowed_findReviewQueue hemployee
          (authority_of_role hrole) fun _ => fetch).of_ok hresponse
        obtain ⟨receipt, hreceipt, hid⟩ := exists_of_mem_createPageResponse hitem
        obtain ⟨hrow, hcondition⟩ := ReceiptRepository.mem_listed.mp hreceipt
        rw [ReceiptRepository.reviewQueue, Truth.and_eq_true,
          ReceiptRepository.reviewable_eq_true] at hcondition
        obtain ⟨⟨⟨owner, howner, -⟩, -⟩, -⟩ := hcondition
        exact ⟨receipt, hid ▸ Table.find?_of_mem hrow, .inr ⟨hrole, by simp [howner]⟩⟩

/-! ## What a row leads to -/

theorem Readable.sameReceipt {receipt' : Receipt} (h : Readable receipt employee)
    (hsame : SameReceipt receipt receipt') : Readable receipt' employee := by
  unfold Readable
  rw [hsame.ownerEmployeeId]
  exact h

theorem getReceipt_of_readable (hemployee : getCurrentEmployee db.employees session = .ok employee)
    {id : Long} (hstored : db.receiptRow id = some receipt) (h : Readable receipt employee) :
    getReceipt db session id = .ok receipt.reread := by
  have hpermission : validateReadPermission receipt.reread employee = .ok () :=
    validateReadPermission_of_readable h
  simp [getReceipt, hemployee, Database.findReceipt_of_receiptRow hstored, orElseThrow,
    hpermission, bind, Except.bind, pure, Except.pure]

/-- Nothing on the way to a receipt, its events and its image is missing: the image is
what the storage has under the key of the job. -/
structure Opens (db : Database) (session : Session) (id : Long) : Prop where
  detail : ∃ response, getReceiptDetail db session id = .ok response
  events : ∃ events, getAuditEvents db session id = .ok events
  image : ∃ job, db.findJobByReceiptId id = some job ∧ ∀ load,
    ReceiptImageService.getOriginalImage load db session id = do
      let bytes ← load job.imageStorageKey
      match ReceiptImageFormat.detect bytes with
      | .ok format => return { bytes, contentType := format.contentType }
      | .error _ => throw (.receiptImageStorage "저장된 원본 이미지 형식을 확인할 수 없습니다." false)

theorem Database.Paired.opens (hpaired : db.Paired)
    (hemployee : getCurrentEmployee db.employees session = .ok employee) {id : Long}
    (hstored : db.receiptRow id = some receipt) (h : Readable receipt employee) :
    Opens db session id := by
  obtain ⟨x, hx, rfl⟩ := hpaired.of_receipt hstored
  have hjob : db.findJobByReceiptId id = some x.job :=
    Database.id_of_receiptRow hstored ▸ hpaired.findJobByReceiptId hx
  have hreceipt := getReceipt_of_readable hemployee hstored h
  refine ⟨⟨.ofReceipt x.receipt.reread x.job.status, ?_⟩,
    ⟨(db.auditEvents.filter (·.receiptId = id)).insertionSort occurredBefore, ?_⟩,
    x.job, hjob, fun load => ?_⟩
  · simp [getReceiptDetail, hreceipt, hjob, orElseThrow, bind, Except.bind, pure, Except.pure]
  · rw [getAuditEvents, hreceipt]
    rfl
  · simp only [ReceiptImageService.getOriginalImage, getExtractionJob, hreceipt, hjob,
      orElseThrow]
    rfl

/-- In every state of the store the queue of a reviewer or administrator holds exactly
the receipts that this employee can reject, those apart that were approved
automatically, and what the lists show to an employee the employee may read.  If the
state is one of a run, a row leads to the receipt, its events and its image, also at
any later moment. -/
theorem queue_read_decision_agree
    (hemployee : getCurrentEmployee db.employees session = .ok employee) :
    (employee.role = .reviewer ∨ employee.role = .admin →
      ∀ receipt, db.receiptRow receipt.id = some receipt → ∀ note now,
        (InReviewQueue db employee receipt ↔
          (∃ result, (db.transact P db fun snapshot => ReceiptCommandService.decide snapshot
            session receipt.id receipt.version .reject note now).1 = .ok result) ∧
          receipt.status ≠ some .autoApproved) ∧
        (db.receipts.rows.length ≤ 2147483647 → ∀ fetch,
          (ShownInReviewQueue fetch db session employee receipt ↔
            InReviewQueue db employee receipt))) ∧
    (∀ item, Listed db session employee item → ∃ receipt,
      db.receiptRow item.id = some receipt ∧ validateReadPermission receipt employee = .ok ()) ∧
    ∀ employees trace earlier, Run P employees trace → earlier <:+ trace →
      db = current employees earlier → ∀ item, Listed db session employee item →
        Opens (current employees trace) session item.id := by
  refine ⟨?_, ?_, ?_⟩
  · intro hreviewer receipt hstored note now
    have hrole : employee.role ≠ .employee := by
      rcases hreviewer with hrole | hrole <;> simp [hrole]
    constructor
    · rw [inReviewQueue_iff hstored, awaitsReview_iff hrole, reject_ok_iff hemployee hstored]
    · exact fun hrows fetch => shownInReviewQueue_iff hemployee hrole hstored hrows fetch
  · intro item hlisted
    obtain ⟨receipt, hstored, hreadable⟩ := hlisted.readable hemployee
    exact ⟨receipt, hstored, validateReadPermission_of_readable hreadable⟩
  · rintro employees trace earlier hrun hearlier rfl item hlisted
    have hemployees := (hrun.suffix hearlier).current_refines.employees
    obtain ⟨receipt, hstored, hreadable⟩ := hlisted.readable hemployee
    obtain ⟨receipt', hstored', hsame⟩ := hrun.stored_later hearlier hstored
    have hrefines := hrun.current_refines
    rw [hemployees] at hemployee
    exact hrefines.paired.opens (by rwa [hrefines.employees]) hstored' (hreadable.sameReceipt hsame)

open Sample in
/-- A waiting receipt of somebody else is in the reviewer's queue, which shows it. -/
theorem waiting_inReviewQueue :
    InReviewQueue waitingReceipts (account 2 "reviewer" .reviewer) (waiting 2 1 firstOfMarch) ∧
      ShownInReviewQueue (fun _ => backwards) waitingReceipts (login 2 "reviewer")
        (account 2 "reviewer" .reviewer) (waiting 2 1 firstOfMarch) := by
  have hemployee : getCurrentEmployee waitingReceipts.employees (login 2 "reviewer") =
      .ok (account 2 "reviewer" .reviewer) := rfl
  obtain ⟨hqueue, hshown⟩ := (queue_read_decision_agree (P := platform) hemployee).1 (.inl rfl)
    (waiting 2 1 firstOfMarch) rfl none 0
  have hin := hqueue.mpr ⟨⟨_, rfl⟩, by decide⟩
  exact ⟨hin, (hshown (by decide) _).mpr hin⟩

end ReceiptReview
