import ReceiptReview.Client.Handlers
import ReceiptReview.System.Replay

/-!
# What the page shows

Answers come in any order, also after the page has moved on.  Whatever is shown was
asked for after the page last ended a session, beside the receipt that it belongs to
(`page_of_session`), and the list never goes back to an earlier answer
(`list_not_outdated`).
-/

namespace ReceiptReview

open Java ReceiptApp

variable {ι : Type} [DecidableEq ι] {genuine : Genuine} {uuid : ℕ → JString}
variable {events : ι → PageEvent} {loop loop' : PageLoop ι}

namespace ReceiptApp.Page

/-- Everything that the page shows was asked for after it last ended a session, and the
history and the image belong to the receipt that is open. -/
structure OfSession (genuine : Genuine) (page : Page ι) : Prop where
  employee : ∀ e, page.employee = some e → genuine page.ghost.session .me e
  rows : page.receiptRows = [] ∨ ∃ view number filters results,
    genuine page.ghost.session (.receipts view number 10 filters) results ∧
      page.receiptRows = results.content
  detail : ∀ receipt, page.detail = some receipt → Returned genuine page.ghost.session receipt
  auditEvents : page.auditEvents = [] ∨ ∃ receipt, page.detail = some receipt ∧
    genuine page.ghost.session (.auditEvents receipt.id) page.auditEvents
  originalImage : ∀ blob, page.originalImageUrl = some blob → ∃ receipt,
    page.detail = some receipt ∧ genuine page.ghost.session (.image receipt.id) blob
  tokens : ∀ issued, page.issued = some issued ∨ page.reissued = some issued →
    IssuedBy genuine page.ghost.session issued ∧ page.view = .employees ∧
      ∃ employee, page.employee = some employee ∧ employee.role = .admin
  ended : page.employee = none → page.receiptRows = [] ∧ page.detail = none ∧
    page.auditEvents = [] ∧ page.originalImageUrl = none ∧ page.issued = none ∧
    page.reissued = none

omit [DecidableEq ι] in
theorem Sound.ofSession {page : Page ι} (h : page.Sound genuine uuid) : page.OfSession genuine where
  employee := h.employee
  rows := h.rows
  detail := h.detail
  auditEvents := by
    cases hdetail : page.detail with
    | none => exact .inl (h.noDetail hdetail).1
    | some receipt => exact (h.audit receipt hdetail).imp_right fun hevents => ⟨_, rfl, hevents⟩
  originalImage blob hblob := by
    cases hdetail : page.detail with
    | none =>
        rw [(h.noDetail hdetail).2] at hblob
        cases hblob
    | some receipt => exact ⟨receipt, rfl, h.image receipt blob hdetail hblob⟩
  tokens issued hissued := by
    obtain ⟨hissuedBy, hadmin, hview⟩ := h.tokens issued hissued
    obtain ⟨employee, hemployee, hrole⟩ := Option.any_eq_true _ _ |>.mp hadmin
    exact ⟨hissuedBy, hview, employee, hemployee, by simpa using hrole⟩
  ended hemployee := by
    obtain ⟨hrows, hdetail, hissued, hreissued⟩ := h.closed hemployee
    obtain ⟨haudit, himage⟩ := h.noDetail hdetail
    exact ⟨hrows, hdetail, haudit, himage, hissued, hreissued⟩

end ReceiptApp.Page

/-! ## A server that answers -/

namespace Sample

/-- What the server answers while a receipt awaits review. -/
def reviewer : EmployeeResponse where
  id := 2
  loginId := .ofString "reviewer"
  name := .ofString "Reviewer"
  role := .reviewer
  active := true

def shownReceipt (id : Long) : ReceiptResponse :=
  .ofReceipt { ReceiptUploadService.acceptedReceipt company (sha256 imageA) none none 4 (some 1) 0
    with id } .queued

def shownList : ReceiptPageResponse where
  content := [{
    id := 1
    version := 0
    ownerEmployeeId := some 1
    status := none
    jobStatus := some .queued
    shopName := none
    date := none
    totalAmount := none
    originalFileName := none
    createdAt := 0
    updatedAt := 0 }]
  page := 0
  size := 10
  totalElements := 1
  totalPages := 1
  hasNext := false

def issuedEmployee : IssuedEmployee where
  employee := reviewer
  setupToken := .ofString "token"
  expiresAt := 0

/-- The response to each request. -/
def answers : (request : ApiRequest) → request.Result
  | .me | .active .. => reviewer
  | .login _ | .logout | .password _ => ()
  | .receipts .. => shownList
  | .receipt id | .correctFields id .. | .decide id .. => shownReceipt id
  | .image _ => { bytes := imageA, contentType := .ofString "image/jpeg" }
  | .auditEvents _ => []
  | .upload .. => { receiptId := 1, jobId := 1, jobStatus := .queued, acceptedAt := 0 }
  | .issue _ | .reissueSetupToken _ => issuedEmployee

/-- The browser and a server that gives the answers that it has. -/
def serveAs (answers : (request : ApiRequest) → Option request.Result)
    (s : Site (Page ℕ) (PageRequest ℕ)) (request : PageRequest ℕ) : request.Answer :=
  if request.controller ∈ s.state.aborted then .error .abort
  else
    match request with
    | .csrf _ => .ok (some ⟨[], []⟩)
    | .fetch .. => .ok 200
    | .readResponse _ => .ok none
    | .body _ request =>
        match answers request with
        | some response => .ok response
        | none => .error .typeError

theorem possible_serveAs {genuine : Genuine}
    {answers : (request : ApiRequest) → Option request.Result}
    (hgenuine : ∀ n request response, answers request = some response →
      genuine n request response)
    (s : Site (Page ℕ) (PageRequest ℕ)) (request : PageRequest ℕ) :
    PageRequest.Possible genuine s request (serveAs answers s request) := by
  refine ⟨fun haborted => if_pos haborted, ?_⟩
  cases request with
  | csrf | fetch | readResponse => trivial
  | body controller request =>
      by_cases haborted : (PageRequest.body controller request).controller ∈ s.state.aborted
      · rw [serveAs, if_pos haborted]
        trivial
      · rw [serveAs, if_neg haborted]
        cases hanswer : answers request with
        | none => trivial
        | some response => simpa only [hanswer] using hgenuine _ _ _ hanswer

/-- The `n`-th key. -/
def uuidOf (n : ℕ) : JString := List.replicate (n + 1) 0x61

theorem uuidOf_injective : Function.Injective uuidOf := fun a b h => by
  have hlength := congrArg List.length h
  simpa [uuidOf] using hlength

/-- Every request is answered. -/
def answer? (request : ApiRequest) : Option request.Result := some (answers request)

/-- The server gives these answers in every session. -/
def answered : Genuine := fun _ request response => response = answers request

theorem answered_identified : Genuine.Identified answered where
  receipt := by rintro _ id _ rfl; rfl
  correctFields := by rintro _ id _ _ _ rfl; rfl
  decide := by rintro _ id _ _ _ _ rfl; rfl

/-- The page is loaded, the review queue and a receipt are opened, the list is loaded
twice more, and the reviewer logs out. -/
def reviewEvents : ℕ → PageEvent
  | 0 => .load
  | 1 => .changeView .review
  | 2 => .openDetail 1
  | 3 | 4 => .refreshList
  | _ => .logout

def reviewActions : List (EventLoop.Action ℕ) :=
  [.event 0, .answer 0, .answer 0, .event 1, .answer 1, .answer 1, .event 2, .answer 2, .answer 2]

/-- The list is answered after the logout. -/
def logoutActions : List (EventLoop.Action ℕ) :=
  [.event 3, .answer 3, .event 5, .answer 5, .answer 5, .answer 5, .answer 3]

def pageAfter (events : ℕ → PageEvent) (actions : List (EventLoop.Action ℕ)) : PageLoop ℕ :=
  actions.foldl (EventLoop.act (pageRules answered uuidOf events) (serveAs answer?))
    (.initial Page.initial)

theorem possible_answers (events : ℕ → PageEvent) (s : Site (Page ℕ) (PageRequest ℕ))
    (request : PageRequest ℕ) :
    (pageRules answered uuidOf events).possible s request (serveAs answer? s request) :=
  have hanswered : ∀ n request response, answer? request = some response →
      answered n request response := fun _ _ _ h => (Option.some.inj h).symm
  possible_serveAs hanswered s request

theorem run_pageAfter (events : ℕ → PageEvent) (actions : List (EventLoop.Action ℕ)) :
    EventLoop.Run (pageRules answered uuidOf events) Page.initial (pageAfter events actions) :=
  EventLoop.Run.initial.steps (EventLoop.schedule_later (possible_answers events) actions)

end Sample

/-! ## Sessions -/

/-- In every run, whatever order the events and the answers come in, the page shows
nothing that was asked for before the last end of a session; while it has no employee it
shows nothing; and a token is shown to an administrator in the view of the employees. -/
theorem page_of_session (hidentified : genuine.Identified) (huuid : Function.Injective uuid)
    (hrun : EventLoop.Run (pageRules genuine uuid events) Page.initial loop) :
    loop.site.state.OfSession genuine :=
  (hrun.inv (Page.keeps_rules hidentified huuid) Page.inv_initial).1.ofSession

open Sample in
/-- A reviewer sees the queue and a receipt, and neither after the logout, although the
list is answered then. -/
theorem logout_hides :
    (pageAfter reviewEvents reviewActions).site.state.receiptRows = shownList.content ∧
      (pageAfter reviewEvents reviewActions).site.state.detail = some (shownReceipt 1) ∧
      (pageAfter reviewEvents (reviewActions ++ logoutActions)).site.state.receiptRows = [] ∧
      (pageAfter reviewEvents (reviewActions ++ logoutActions)).site.state.detail = none := by
  have hended := (page_of_session answered_identified uuidOf_injective
    (run_pageAfter reviewEvents (reviewActions ++ logoutActions))).ended (by decide +kernel)
  exact ⟨by decide +kernel, by decide +kernel, hended.1, hended.2.1⟩

/-! ## Lists -/

/-- The list that is shown is never replaced by the answer to an earlier request.  Once
the last request is answered, the page shows the answer to a request for the view and the
page that are selected. -/
theorem list_not_outdated [Nontrivial ι] (hidentified : genuine.Identified)
    (huuid : Function.Injective uuid)
    (hrun : EventLoop.Run (pageRules genuine uuid events) Page.initial loop)
    (hlater : Relation.ReflTransGen (EventLoop.Step (pageRules genuine uuid events)) loop loop') :
    loop.site.state.ghost.rowsRequest ≤ loop'.site.state.ghost.rowsRequest ∧
      (loop'.site.state.ghost.rowsRequest = loop'.site.state.listRequest →
        loop'.site.state.listRequest ≠ 0 → ∃ filters results,
          genuine loop'.site.state.ghost.session
            (.receipts loop'.site.state.view loop'.site.state.page 10 filters) results ∧
          loop'.site.state.listing = .ofResults results) := by
  have hkeeps : EventLoop.Keeps (pageRules genuine uuid events) _ :=
    Page.keeps_rules hidentified huuid
  refine ⟨?_, ((hrun.steps hlater).inv hkeeps Page.inv_initial).1.listed⟩
  let notBefore (s s' : Site (Page ι) (PageRequest ι)) : Prop :=
    s.state.ghost.rowsRequest ≤ s'.state.ghost.rowsRequest
  have hnotBefore : notBefore loop.site loop'.site := by
    refine hrun.later hkeeps Page.inv_initial (fun _ => le_rfl) (fun _ _ _ => le_trans)
      (fun i s s' _ hguarantees => ?_) hlater
    obtain ⟨j, hj⟩ := exists_ne i
    exact (hguarantees.others j hj).rowsRequest
  exact hnotBefore

namespace Sample

/-- The later of two requests for the list is answered. -/
def newestPage : PageLoop ℕ :=
  pageAfter reviewEvents (reviewActions ++ [.event 3, .event 4, .answer 4, .answer 4])

/-- Then the earlier one is answered. -/
def olderPage : PageLoop ℕ :=
  [.answer 3, .answer 3].foldl
    (EventLoop.act (pageRules answered uuidOf reviewEvents) (serveAs answer?)) newestPage

end Sample

open Sample in
/-- The list of the later request stays. -/
theorem older_list_dropped :
    olderPage.handlers 3 = some (.done (.ok ())) ∧
      newestPage.site.state.ghost.rowsRequest ≤ olderPage.site.state.ghost.rowsRequest ∧
      olderPage.site.state.listing = .ofResults shownList := by
  have hlater : Relation.ReflTransGen (EventLoop.Step (pageRules answered uuidOf reviewEvents))
      newestPage olderPage := EventLoop.schedule_later (possible_answers reviewEvents) _
  obtain ⟨hnotBefore, hlisted⟩ := list_not_outdated answered_identified uuidOf_injective
    (run_pageAfter reviewEvents _) hlater
  obtain ⟨filters, results, hanswered, hlisting⟩ := hlisted (by decide +kernel) (by decide +kernel)
  exact ⟨rfl, hnotBefore, hlisting.trans (congrArg Page.Listing.ofResults hanswered)⟩

end ReceiptReview
