import ReceiptReview.Results.PageSession
import ReceiptReview.Results.Versions

/-!
# Commands of the page

The page sends a correction or a decision with the version of the receipt that it shows.
Beside any other requests, and however late the command arrives, it is committed only on
the state of the receipt that the server has shown to the page since the page last ended a
session (`commands_on_what_is_shown`).
-/

namespace ReceiptReview

open Java ReceiptApp ReceiptCommandService ReceiptQueryService ReceiptCase Outcome
open Store hiding Page PageRequest

variable {P : Platform} {employees : Table Employee} {trace earlier : List Commit}
variable {commit : Commit}

/-! ## What the server answers -/

/-- A command that names this version of the receipt has been committed, and the response
is made from what it returned and a status of the job. -/
def AnswersCommand (trace : List Commit) (id : Long) (version : ℤ) (response : ReceiptResponse) :
    Prop :=
  ∃ commit earlier receipt jobStatus, commit :: earlier <:+ trace ∧
    commit.operation.names = some (id, version) ∧ commit.reply = .receipt receipt ∧
    response = .ofReceipt receipt jobStatus

/-- The responses about one receipt that a server with this history may give, to any
employees and at any moments; those that a page gets are some of them.  Of other responses
nothing is asked. -/
def Served (employees : Table Employee) (trace : List Commit) : Genuine
  | _, .receipt id, response => ∃ moment session, moment <:+ trace ∧
      getReceiptDetail (current employees moment) session id = .ok response
  | _, .correctFields id version _, response | _, .decide id version _ _, response =>
      AnswersCommand trace id version response
  | _, _, _ => True

/-- What a command returns is stored after it. -/
theorem Run.stored_of_reply (h : Run P employees (commit :: trace)) {id : Long} {version : ℤ}
    (hnames : commit.operation.names = some (id, version)) {receipt : Receipt}
    (hreply : commit.reply = .receipt receipt) : commit.after.receiptRow id = some receipt := by
  obtain ⟨hrun, hbefore, -, hcommit, snapshot, hsnapshot, hbody⟩ := h.head
  obtain ⟨-, hreceipts, -⟩ := hrun.refines hsnapshot
  rw [hbefore] at hcommit
  -- what is written back has been read as it still is
  have hwritten : ∀ {stored changed : Receipt}, snapshot.receiptRow id = some stored →
      commit.changes.receipts = [changed] → commit.changes.created = none →
      changed.id = stored.id → changed.version = stored.version →
      commit.after.receiptRow id = some changed.flushed := by
    intro stored changed hread hchanged hcreated hid hversion
    have hstored := stored_receipt hreceipts hcommit (by simp [hchanged]) hread hid hversion
    rw [Database.id_of_receiptRow hread] at hstored
    rw [receiptRow_written hcreated hcommit, hstored, hchanged, Option.map_some,
      Table.updated_singleton_self hid]
    exact congrArg (fun version => some { changed with version := version + 1 }) hversion.symm
  cases hoperation : commit.operation <;> rw [hoperation] at hnames hbody <;> cases hnames <;>
    simp only [Operation.body, replyWith_eq_ok] at hbody <;>
    obtain ⟨result, hresult, hreplied⟩ := hbody <;> rw [hreply] at hreplied <;> cases hreplied
  case correctFields =>
      obtain ⟨employee, stored, -, hread, -, -, -, rfl, hchanges⟩ := correctFields_eq_ok hresult
      exact hwritten hread (congrArg Database.Changes.receipts hchanges)
        (congrArg Database.Changes.created hchanges) rfl rfl
  case decide =>
      obtain ⟨employee, stored, -, hread, -, -, -, -, rfl, hchanges⟩ := decide_eq_ok hresult
      exact hwritten hread (congrArg Database.Changes.receipts hchanges)
        (congrArg Database.Changes.created hchanges) rfl rfl

/-- A response shows the receipt of some moment as it reads back, or, in the answer to a
command, as it was written. -/
def ShowsStored (employees : Table Employee) (trace : List Commit) (id : Long)
    (response : ReceiptResponse) : Prop :=
  response.id = id ∧ ∃ moment receipt, moment <:+ trace ∧
    (current employees moment).receiptRow id = some receipt ∧
    (response = .ofReceipt receipt.reread response.jobStatus ∨
      response = .ofReceipt receipt response.jobStatus)

theorem Run.showsStored_of_command (hrun : Run P employees trace) {id : Long} {version : ℤ}
    {response : ReceiptResponse} (h : AnswersCommand trace id version response) :
    ShowsStored employees trace id response := by
  obtain ⟨commit, earlier, receipt, jobStatus, hsuffix, hnames, hreply, rfl⟩ := h
  have hstored := (hrun.suffix hsuffix).stored_of_reply hnames hreply
  exact ⟨Database.id_of_receiptRow hstored, _, receipt, hsuffix, hstored, .inr rfl⟩

theorem showsStored_of_detail {id : Long} {response : ReceiptResponse} {moment : List Commit}
    {session : Session} (hmoment : moment <:+ trace)
    (h : getReceiptDetail (current employees moment) session id = .ok response) :
    ShowsStored employees trace id response := by
  obtain ⟨receipt, job, hstored, -, rfl⟩ := getReceiptDetail_eq_ok h
  have hid : receipt.id = id := Database.id_of_receiptRow hstored
  exact ⟨hid, moment, receipt, hmoment, hstored, .inl rfl⟩

variable {genuine : Genuine}
variable (hserved : ∀ n request response, genuine n request response →
  Served employees trace n request response)

include hserved in
theorem Run.served_identified (hrun : Run P employees trace) : genuine.Identified where
  receipt _ _ _ h := by
    obtain ⟨moment, session, hmoment, h⟩ := hserved _ _ _ h
    exact (showsStored_of_detail hmoment h).1
  correctFields _ _ _ _ _ h := (hrun.showsStored_of_command (hserved _ _ _ h)).1
  decide _ _ _ _ _ _ h := (hrun.showsStored_of_command (hserved _ _ _ h)).1

include hserved in
/-- What the page shows of a receipt was stored. -/
theorem Run.showsStored_of_returned (hrun : Run P employees trace) {n : ℕ}
    {response : ReceiptResponse} (h : Page.Returned genuine n response) :
    ShowsStored employees trace response.id response := by
  cases h with
  | got h =>
      obtain ⟨moment, session, hmoment, h⟩ := hserved _ _ _ h
      exact showsStored_of_detail hmoment h
  | corrected h | decided h => exact hrun.showsStored_of_command (hserved _ _ _ h)

/-! ## What a command acts on -/

/-- The receipt and the version that a request of the page names. -/
def ReceiptApp.ApiRequest.names : ApiRequest → Option (Long × ℤ)
  | correctFields id version _ | decide id version _ _ => some (id, version)
  | _ => none

variable {ι : Type} [DecidableEq ι] {uuid : ℕ → JString} {events : ι → PageEvent}
variable {loop : PageLoop ι}

/-- Each correction and each decision that the page sends names a receipt that the server has
returned to this page since the page last ended a session, and a command that is committed
under this name has found exactly this receipt: its status, its data and its rules, as they
read back. -/
theorem commands_on_what_is_shown (hrun : Run P employees trace)
    (hserved : ∀ n request response, genuine n request response →
      Served employees trace n request response)
    (huuid : Function.Injective uuid)
    (hpage : EventLoop.Run (pageRules genuine uuid events) Page.initial loop)
    {controller : Controller ι} {request : ApiRequest} {token : Option CsrfToken}
    (hsent : .fetch controller request token ∈ loop.site.sent) {id : Long} {version : ℤ}
    (hnames : request.names = some (id, version)) :
    ∃ shown, Page.Returned genuine controller.session shown ∧
      shown.id = id ∧ (shown.version : ℤ) = version ∧
      ∀ commit earlier, commit :: earlier <:+ trace →
        commit.operation.names = some (id, version) → ∃ stored,
          (current employees earlier).receiptRow id = some stored ∧
          commit.ActsOn stored.reread ∧
          (shown = .ofReceipt stored.reread shown.jobStatus ∨
            shown = .ofReceipt stored shown.jobStatus) := by
  have hidentified := hrun.served_identified hserved
  have hinv := hpage.inv (Page.keeps_rules hidentified huuid) Page.inv_initial
  have hbacked := hinv.2 controller request token hsent
  obtain ⟨shown, hreturned, rfl, rfl⟩ : ∃ shown : ReceiptResponse,
      Page.Returned genuine controller.session shown ∧ shown.id = id ∧
        (shown.version : ℤ) = version := by
    cases request <;> cases hnames <;> obtain ⟨shown, hreturned, rfl, rfl⟩ := hbacked <;>
      exact ⟨shown, hreturned, rfl, rfl⟩
  refine ⟨shown, hreturned, rfl, rfl, fun commit earlier hsuffix hcommand => ?_⟩
  obtain ⟨stored, -, hstored, hversion, hacts, -⟩ := (hrun.suffix hsuffix).acts_on hcommand
  obtain ⟨-, moment, receipt, hmoment, hreceipt, hshown⟩ :=
    hrun.showsStored_of_returned hserved hreturned
  have hreceiptVersion : receipt.version = shown.version := by
    rcases hshown with hshown | hshown <;> rw [hshown] <;> rfl
  have hsame : stored = receipt := hrun.receipt_of_version hmoment
    ((List.suffix_cons _ _).trans hsuffix) hreceipt hstored (by omega)
  exact ⟨stored, hstored, hacts, hsame ▸ hshown⟩

namespace Sample

/-- The moments of `approvalTrace` after the approval and before it. -/
def approvedTrace : List Commit := approvalTrace.tail

def extractedTrace : List Commit := approvedTrace.tail

/-- The server answers with the receipt before its approval, and then approves it. -/
def approvalAnswers : (request : ApiRequest) → Option request.Result
  | .me => some reviewer
  | .receipts .. => some shownList
  | .receipt id =>
      (getReceiptDetail (current staff extractedTrace) (login 2 "reviewer") id).toOption
  | .decide id version .. =>
      if (id, (version : ℤ)) = (1, 1) then
        ((current staff approvedTrace).receiptRow 1).map (.ofReceipt · .completed)
      else none
  | _ => none

theorem approvedTrace_eq : ∃ commit, approvedTrace = commit :: extractedTrace ∧
    commit.operation.names = some (1, 1) ∧
    ∃ receipt, commit.reply = .receipt receipt ∧
      (current staff approvedTrace).receiptRow 1 = some receipt :=
  ⟨_, rfl, rfl, _, rfl, rfl⟩

/-- What this page is answered. -/
def approvalAnswered : Genuine :=
  fun _ request response => approvalAnswers request = some response

theorem approvalAnswered_served (n : ℕ) (request : ApiRequest) (response : request.Result)
    (h : approvalAnswered n request response) : Served staff approvalTrace n request response := by
  have hextracted : extractedTrace <:+ approvalTrace :=
    (List.tail_suffix _).trans (List.tail_suffix _)
  cases request with
  | receipt id =>
      refine ⟨extractedTrace, login 2 "reviewer", hextracted, ?_⟩
      simp only [approvalAnswered, approvalAnswers] at h
      cases hdetail : getReceiptDetail (current staff extractedTrace) (login 2 "reviewer") id with
      | error e => rw [hdetail] at h; cases h
      | ok detail => rw [hdetail] at h; cases h; rfl
  | decide id version decision note =>
      simp only [approvalAnswered, approvalAnswers] at h
      split at h
      case isFalse => cases h
      case isTrue hnames =>
        obtain ⟨commit, htrace, hcommand, receipt, hreply, hstored⟩ := approvedTrace_eq
        rw [hstored, Option.map_some, Option.some.injEq] at h
        have hsuffix : commit :: extractedTrace <:+ approvalTrace :=
          htrace ▸ List.tail_suffix approvalTrace
        exact ⟨commit, extractedTrace, receipt, .completed, hsuffix, hnames ▸ hcommand, hreply,
          h.symm⟩
  | _ => trivial

/-- The receipt is opened and approved. -/
def approvalEvents : ℕ → PageEvent
  | 0 => .load
  | 1 => .openDetail 1
  | _ => .decide .approve []

def approvalPage : PageLoop ℕ :=
  [.event 0, .answer 0, .answer 0, .answer 0, .answer 0, .event 1, .answer 1, .answer 1, .event 2,
    .answer 2, .answer 2, .answer 2].foldl
    (EventLoop.act (pageRules approvalAnswered uuidOf approvalEvents)
      (serveAs approvalAnswers))
    (.initial Page.initial)

theorem approvalPage_run :
    EventLoop.Run (pageRules approvalAnswered uuidOf approvalEvents) Page.initial approvalPage :=
  EventLoop.Run.initial.steps
    (EventLoop.schedule_later (possible_serveAs fun _ _ _ h => h) _)

end Sample

open Sample in
/-- The reviewer has approved the data that the page has shown. -/
theorem approvalPage_approves :
    ∃ commit stored, approvedTrace = commit :: extractedTrace ∧
      commit.ActsOn (Receipt.reread stored) ∧
      ∃ shown, Page.Returned approvalAnswered 0 shown ∧
        (shown = .ofReceipt stored.reread shown.jobStatus ∨
          shown = .ofReceipt stored shown.jobStatus) := by
  obtain ⟨commit, htrace, hcommand, -⟩ := approvedTrace_eq
  have hsent : .fetch ⟨2, 3, 0⟩ (.decide 1 1 .approve []) (some ⟨[], []⟩) ∈
      approvalPage.site.sent := by decide +kernel
  obtain ⟨shown, hreturned, -, -, hacts⟩ :=
    commands_on_what_is_shown approvalTrace_run approvalAnswered_served uuidOf_injective
      approvalPage_run hsent rfl
  obtain ⟨stored, -, hstored, hshown⟩ :=
    hacts commit extractedTrace (htrace ▸ List.tail_suffix approvalTrace) hcommand
  exact ⟨commit, stored, htrace, hstored, shown, hreturned, hshown⟩

end ReceiptReview
