import ReceiptReview.Client.Page

/-!
# What the handlers of the page promise one another

A handler that waits for the server may find the page in another state: another receipt is
open, another view is selected, the session has ended.  `Page.Apart` says what does not
happen to it meanwhile, and `Page.Sound` what holds whenever no handler runs.
-/

namespace ReceiptReview.ReceiptApp

open Java

/-- Which responses the server gives to a request that is made in the `n`-th session of the
page.  A session of the page ends with a log-out or an answer `401`; a login begins none. -/
abbrev Genuine : Type := ℕ → (request : ApiRequest) → request.Result → Prop

namespace Page

variable {ι : Type}

/-! ## What a handler may rely on while it waits -/

/-- The parts of the page that a handler compares before and after it has waited. -/
structure Core (ι : Type) where
  session : ℕ
  listRequest : ℕ
  listTaker : Option ι
  view : View
  page : ℕ
  rowsRequest : ℕ
  detailRequest : ℕ
  detailTaker : Option ι
  detail : Option Long
  requests : List (Controller ι)
  aborted : List (Controller ι)
  keys : List (JString × Option File)

def core (page : Page ι) : Core ι where
  session := page.ghost.session
  listRequest := page.listRequest
  listTaker := page.ghost.listTaker
  view := page.view
  page := page.page
  rowsRequest := page.ghost.rowsRequest
  detailRequest := page.detailRequest
  detailTaker := page.ghost.detailTaker
  detail := page.detail.map (·.id)
  requests := page.requests
  aborted := page.aborted
  keys := page.ghost.keys

/-- What holds from one moment to a later one for the handler `i`, whoever runs. -/
structure Core.Onward (i : ι) (c c' : Core ι) : Prop where
  session : c.session ≤ c'.session
  listRequest : c.listRequest ≤ c'.listRequest
  /-- The list is asked for again when another list is wanted. -/
  selected : c'.listRequest = c.listRequest → c'.view = c.view ∧ c'.page = c.page
  listTaker : c'.listRequest = c.listRequest → c'.listTaker = c.listTaker
  rowsRequest : c.rowsRequest ≤ c'.rowsRequest
  /-- While `i` is the last one that has asked for a list, no other list is shown. -/
  rows : c'.listRequest = c.listRequest → c.listTaker = some i → c'.rowsRequest = c.rowsRequest
  detailRequest : c.detailRequest ≤ c'.detailRequest
  detailTaker : c'.detailRequest = c.detailRequest → c'.detailTaker = c.detailTaker
  /-- While `i` is the last one that has asked for a receipt, no other receipt is opened. -/
  detail : c'.detailRequest = c.detailRequest → c.detailTaker = some i → c'.detail = c.detail
  keys : c.keys ⊆ c'.keys

/-- What the others do while `i` waits. -/
structure Core.Apart (i : ι) (c c' : Core ι) : Prop extends Core.Onward i c c' where
  requests : ∀ controller ∈ c.requests, controller.handler = i → controller ∈ c'.requests
  aborted : c.aborted ⊆ c'.aborted
  /-- The end of a session aborts what `i` waits for. -/
  ended : c.session < c'.session → ∀ controller ∈ c.requests, controller.handler = i →
    controller ∈ c'.aborted

abbrev Onward (i : ι) (page page' : Page ι) : Prop := page.core.Onward i page'.core

abbrev Apart (i : ι) (page page' : Page ι) : Prop := page.core.Apart i page'.core

theorem Core.Onward.refl (i : ι) (c : Core ι) : c.Onward i c where
  session := le_rfl
  listRequest := le_rfl
  selected _ := ⟨rfl, rfl⟩
  listTaker _ := rfl
  rowsRequest := le_rfl
  rows _ _ := rfl
  detailRequest := le_rfl
  detailTaker _ := rfl
  detail _ _ := rfl
  keys := List.Subset.refl _

theorem Core.Onward.trans {i : ι} {c c' c'' : Core ι} (h : c.Onward i c')
    (h' : c'.Onward i c'') : c.Onward i c'' where
  session := h.session.trans h'.session
  listRequest := h.listRequest.trans h'.listRequest
  selected heq := by
    have heq' : c'.listRequest = c.listRequest :=
      le_antisymm (heq ▸ h'.listRequest) h.listRequest
    obtain ⟨hview, hpage⟩ := h'.selected (heq.trans heq'.symm)
    exact ⟨hview.trans (h.selected heq').1, hpage.trans (h.selected heq').2⟩
  listTaker heq := by
    have heq' : c'.listRequest = c.listRequest :=
      le_antisymm (heq ▸ h'.listRequest) h.listRequest
    exact (h'.listTaker (heq.trans heq'.symm)).trans (h.listTaker heq')
  rowsRequest := h.rowsRequest.trans h'.rowsRequest
  rows heq htaker := by
    have heq' : c'.listRequest = c.listRequest :=
      le_antisymm (heq ▸ h'.listRequest) h.listRequest
    have htaker' : c'.listTaker = some i := (h.listTaker heq').trans htaker
    exact (h'.rows (heq.trans heq'.symm) htaker').trans (h.rows heq' htaker)
  detailRequest := h.detailRequest.trans h'.detailRequest
  detailTaker heq := by
    have heq' : c'.detailRequest = c.detailRequest :=
      le_antisymm (heq ▸ h'.detailRequest) h.detailRequest
    exact (h'.detailTaker (heq.trans heq'.symm)).trans (h.detailTaker heq')
  detail heq htaker := by
    have heq' : c'.detailRequest = c.detailRequest :=
      le_antisymm (heq ▸ h'.detailRequest) h.detailRequest
    have htaker' : c'.detailTaker = some i := (h.detailTaker heq').trans htaker
    exact (h'.detail (heq.trans heq'.symm) htaker').trans (h.detail heq' htaker)
  keys := List.Subset.trans h.keys h'.keys

theorem Core.Apart.refl (i : ι) (c : Core ι) : c.Apart i c where
  toOnward := Onward.refl i c
  requests _ hmem _ := hmem
  aborted := List.Subset.refl _
  ended hlt := absurd hlt (lt_irrefl _)

theorem Core.Apart.trans {i : ι} {c c' c'' : Core ι} (h : c.Apart i c') (h' : c'.Apart i c'') :
    c.Apart i c'' where
  toOnward := h.toOnward.trans h'.toOnward
  requests controller hmem hmine :=
    h'.requests controller (h.requests controller hmem hmine) hmine
  aborted := List.Subset.trans h.aborted h'.aborted
  ended hlt controller hmem hmine := by
    rcases h.session.lt_or_eq with hended | hsame
    · exact h'.aborted (h.ended hended controller hmem hmine)
    · exact h'.ended (hsame ▸ hlt) controller (h.requests controller hmem hmine) hmine

/-! ## What holds between the blocks -/

/-- The server has answered with this receipt in the `n`-th session. -/
inductive Returned (genuine : Genuine) (n : ℕ) (receipt : ReceiptResponse) : Prop
  | got : genuine n (.receipt receipt.id) receipt → Returned genuine n receipt
  | corrected {version : ℕ} {corrections : FieldCorrections} :
      genuine n (.correctFields receipt.id version corrections) receipt →
        Returned genuine n receipt
  | decided {version : ℕ} {decision : ReviewDecision} {note : JString} :
      genuine n (.decide receipt.id version decision note) receipt → Returned genuine n receipt

/-- The server has answered with this token of a new employee in the `n`-th session. -/
inductive IssuedBy (genuine : Genuine) (n : ℕ) (issued : IssuedEmployee) : Prop
  | issue {request : IssueEmployeeRequest} :
      genuine n (.issue request) issued → IssuedBy genuine n issued
  | reissue {id : Long} :
      genuine n (.reissueSetupToken id) issued → IssuedBy genuine n issued

/-- The page had reason to make this request in the `n`-th session. -/
def Backed (genuine : Genuine) (n : ℕ) (page : Page ι) : ApiRequest → Prop
  | .image id | .auditEvents id => ∃ receipt, Returned genuine n receipt ∧ receipt.id = id
  | .correctFields id version _ | .decide id version _ _ =>
      ∃ receipt, Returned genuine n receipt ∧ receipt.id = id ∧ receipt.version = version
  | .upload key file => (key, file) ∈ page.ghost.keys
  | _ => True

/-- The list that the page shows. -/
structure Listing where
  receiptCount : ℕ
  receiptRows : List ReceiptListItemResponse
  pageLabel : PageLabel
  previousDisabled : Bool
  nextDisabled : Bool

def listing (page : Page ι) : Listing where
  receiptCount := page.receiptCount
  receiptRows := page.receiptRows
  pageLabel := page.pageLabel
  previousDisabled := page.previousDisabled
  nextDisabled := page.nextDisabled

/-- How a page of results is shown. -/
def Listing.ofResults (results : ReceiptPageResponse) : Listing where
  receiptCount := results.totalElements
  receiptRows := results.content
  pageLabel := .shown (results.page + 1) (max results.totalPages 1) results.totalElements
  previousDisabled := results.page = 0
  nextDisabled := !results.hasNext

structure Sound (genuine : Genuine) (uuid : ℕ → JString) (page : Page ι) : Prop where
  employee : ∀ e, page.employee = some e → genuine page.ghost.session .me e
  rows : page.receiptRows = [] ∨ ∃ view number filters results,
    genuine page.ghost.session (.receipts view number 10 filters) results ∧
      page.receiptRows = results.content
  rowsRequest : page.ghost.rowsRequest ≤ page.listRequest
  listed : page.ghost.rowsRequest = page.listRequest → page.listRequest ≠ 0 →
    ∃ filters results,
      genuine page.ghost.session (.receipts page.view page.page 10 filters) results ∧
        page.listing = .ofResults results
  closed : page.employee = none → page.receiptRows = [] ∧ page.detail = none ∧
    page.issued = none ∧ page.reissued = none
  detail : ∀ receipt, page.detail = some receipt → Returned genuine page.ghost.session receipt
  noDetail : page.detail = none → page.auditEvents = [] ∧ page.originalImageUrl = none
  audit : ∀ receipt, page.detail = some receipt → page.auditEvents = [] ∨
    genuine page.ghost.session (.auditEvents receipt.id) page.auditEvents
  image : ∀ receipt blob, page.detail = some receipt → page.originalImageUrl = some blob →
    genuine page.ghost.session (.image receipt.id) blob
  tokens : ∀ issued, page.issued = some issued ∨ page.reissued = some issued →
    IssuedBy genuine page.ghost.session issued ∧ page.employee.any (·.role = .admin) ∧
      page.view = .employees
  uploadKey : ∀ key, page.uploadKey = some key → (key, page.receiptFile) ∈ page.ghost.keys
  drawn : ∀ drawn ∈ page.ghost.keys, ∃ n < page.uuids, drawn.1 = uuid n
  keys : (page.ghost.keys.map (·.1)).Nodup

/-- The requests that the page has sent had a reason. -/
def Asked (genuine : Genuine) (site : Site (Page ι) (PageRequest ι)) : Prop :=
  ∀ controller request token, .fetch controller request token ∈ site.sent →
    Backed genuine controller.session site.state request

end Page

/-- The contract of the handlers of the page. -/
def pageContract (ι : Type) (genuine : Genuine) (uuid : ℕ → JString) :
    Contract ι (Page ι) (PageRequest ι) where
  inv site := site.state.Sound genuine uuid ∧ Page.Asked genuine site
  rely i site site' := site.state.Apart i site'.state
  refl _ _ := .refl _ _
  trans _ _ _ _ h h' := h.trans h'

end ReceiptReview.ReceiptApp
