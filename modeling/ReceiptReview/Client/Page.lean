import ReceiptReview.Client.Api

/-!
# The browser page

`receipt-app.js`: the object `state`, the parts of the document that show data of the
server, and the handlers of the events.  A handler may be called at any time and any
number of times, also where the page hides or disables the element; so a property of all
runs does not rest on what is visible.

Left out are texts, styles and focus, the form of a receipt's fields (what the user submits
is an argument of the handler), the buttons in the rows of the list, copying a token to the
clipboard and what the browser does with an image that it cannot decode.
-/

namespace ReceiptReview

open Java Handler

namespace ReceiptApp

inductive PageLabel
  | start
  | loading
  | failed
  | shown (page totalPages totalElements : ℕ)
  deriving DecidableEq, Repr

/-- The buttons that `run` disables while their action goes on. -/
inductive Button
  | login
  | setup
  | logout
  | upload
  | filter
  | refreshList
  | refreshDetail
  | refreshAudit
  | correct
  | decision (decision : ReviewDecision)
  | issue
  | reissue
  | active
  deriving DecidableEq, Repr

structure Notice where
  message : JString
  error : Bool
  deriving DecidableEq, Repr

/-- What no code of the page reads. -/
structure Ghost (ι : Type) where
  /-- How often `endSession` has run. -/
  session : ℕ
  /-- The handler that has counted `listRequest` up last. -/
  listTaker : Option ι
  /-- The handler that has counted `detailRequest` up last. -/
  detailTaker : Option ι
  /-- The list request that the rows are the answer to. -/
  rowsRequest : ℕ
  /-- The keys of uploads, each with the file that was selected when it was drawn. -/
  keys : List (JString × Option File)
  deriving DecidableEq, Repr

structure Page (ι : Type) where
  -- `state`
  employee : Option EmployeeResponse
  view : View
  page : ℕ
  detail : Option ReceiptResponse
  listRequest : ℕ
  detailRequest : ℕ
  employeeTokenRequest : ℕ
  previewUrl : Option File
  uploadKey : Option JString
  requests : List (Controller ι)
  originalImageUrl : Option ReceiptImageResponse
  originalImageRequest : Option (Controller ι)
  -- the document
  notice : Option Notice
  detailNotice : Option Notice
  receiptFile : Option File
  filters : Filters
  receiptCount : ℕ
  receiptRows : List ReceiptListItemResponse
  pageLabel : PageLabel
  previousDisabled : Bool
  nextDisabled : Bool
  dialogOpen : Bool
  originalImagePanel : Bool
  correctionDisabled : Bool
  decisionHidden : Bool
  disabledButtons : List Button
  auditEvents : List AuditEventResponse
  issued : Option IssuedEmployee
  reissued : Option IssuedEmployee
  -- the browser
  controllers : ℕ
  aborted : List (Controller ι)
  uuids : ℕ
  ghost : Ghost ι

abbrev PageHandler (ι α : Type) : Type :=
  Handler (Page ι) (PageRequest ι) PageRequest.Answer PageError α

/-! ## Parts of the handlers that run at once -/

def Filters.empty : Filters := { status := none, from_ := [], to_ := [] }

/-- `filters.get("from") > filters.get("to")`, where both are given: the texts of the two
dates are compared. -/
def Filters.reversed (filters : Filters) : Bool :=
  filters.from_ ≠ [] && filters.to_ ≠ [] && filters.to_ < filters.from_

def pendingJobs : List ExtractionJobStatus := [.queued, .processing, .retryWait]

def editableStatuses : List ReceiptStatus :=
  [.needsReview, .needsRecapture, .manualEntry, .unreadable]

/-- The white space of `String.prototype.trim`: the white space and the line terminators of
the language. -/
def isJsSpace (unit : UInt16) : Bool :=
  (0x09 ≤ unit && unit ≤ 0x0D) || unit == 0x20 || unit == 0xA0 || unit == 0x1680 ||
    (0x2000 ≤ unit && unit ≤ 0x200A) || unit == 0x2028 || unit == 0x2029 || unit == 0x202F ||
    unit == 0x205F || unit == 0x3000 || unit == 0xFEFF

/-- `Number(value) > 0`: a decimal that is not above half of the least positive number of
the language is read as zero or less. -/
def numberPositive (value : BigDecimal) : Bool := (1 / 2 : ℚ) ^ 1075 < value.toRat

/-- What `renderDetail` offers for a receipt. -/
structure Offers where
  correct : Bool
  review : Bool
  approve : Bool
  deriving DecidableEq, Repr

end ReceiptApp

open ReceiptApp

/-- The part of `canEdit` that does not look at the employee. -/
def ReceiptResponse.editable (receipt : ReceiptResponse) : Bool :=
  !pendingJobs.contains receipt.jobStatus &&
    !(receipt.status = some .approved || receipt.status = some .rejected) &&
    receipt.status.isSome && receipt.ownerEmployeeId.isSome

/-- `hasApprovalFields`. -/
def ReceiptResponse.hasApprovalFields (receipt : ReceiptResponse) : Bool :=
  receipt.currentData.any fun data =>
    data.shopName.any (fun shopName => !shopName.all isJsSpace) && data.date.isSome &&
      data.totalAmount.any numberPositive

def ReceiptResponse.offers (receipt : ReceiptResponse) (employee : EmployeeResponse) : Offers :=
  let canEdit := receipt.editable &&
    (employee.role ≠ .employee || receipt.status.any editableStatuses.contains)
  let canReview := canEdit && employee.role ≠ .employee &&
    receipt.ownerEmployeeId ≠ some employee.id
  let needsCorrectionBeforeApproval :=
    receipt.status = some .needsRecapture || receipt.status = some .unreadable
  { correct := canEdit, review := canReview,
    approve := !(needsCorrectionBeforeApproval || !receipt.hasApprovalFields) }

namespace ReceiptApp

namespace Page

variable {ι : Type} (me : ι) (page : Page ι)

/-- The page as it is loaded. -/
def initial : Page ι where
  employee := none
  view := .mine
  page := 0
  detail := none
  listRequest := 0
  detailRequest := 0
  employeeTokenRequest := 0
  previewUrl := none
  uploadKey := none
  requests := []
  originalImageUrl := none
  originalImageRequest := none
  notice := none
  detailNotice := none
  receiptFile := none
  filters := .empty
  receiptCount := 0
  receiptRows := []
  pageLabel := .start
  previousDisabled := true
  nextDisabled := true
  dialogOpen := false
  originalImagePanel := false
  correctionDisabled := false
  decisionHidden := true
  disabledButtons := []
  auditEvents := []
  issued := none
  reissued := none
  controllers := 0
  aborted := []
  uuids := 0
  ghost :=
    { session := 0, listTaker := none, detailTaker := none, rowsRequest := 0, keys := [] }

def notify (message : JString) (error : Bool) : Page ι :=
  if page.dialogOpen then { page with detailNotice := some { message, error } }
  else { page with notice := some { message, error } }

/-- `button.disabled = disabled`. -/
def setDisabled (button : Button) (disabled : Bool) : Page ι :=
  { page with
    disabledButtons :=
      if disabled then button :: page.disabledButtons
      else page.disabledButtons.filter (· ≠ button) }

def clearIssuedToken : Page ι :=
  { page with
    employeeTokenRequest := page.employeeTokenRequest + 1
    issued := none
    reissued := none }

def clearFile : Page ι :=
  { page with previewUrl := none, uploadKey := none, receiptFile := none }

/-- `abort()` of the controllers. -/
def abort (controllers : List (Controller ι)) : Page ι :=
  { page with aborted := controllers ++ page.aborted }

def clearOriginalImage : Page ι :=
  { page.abort page.originalImageRequest.toList with
    originalImageRequest := none
    originalImageUrl := none
    originalImagePanel := false }

/-- `++state.listRequest`. -/
def takeList : Page ι :=
  { page with
    listRequest := page.listRequest + 1
    ghost := { page.ghost with listTaker := some me } }

/-- `++state.detailRequest`. -/
def takeDetail : Page ι :=
  { page with
    detailRequest := page.detailRequest + 1
    ghost := { page.ghost with detailTaker := some me } }

def closeDetail : Page ι :=
  { (page.takeDetail me).clearOriginalImage with
    detail := none
    dialogOpen := false
    auditEvents := [] }

def endSession : Page ι :=
  let page := page.abort page.requests
  let page := { page with employee := none }.takeList me
  let page := ((page.closeDetail me).clearFile).clearIssuedToken
  { page with
    receiptRows := []
    ghost := { page.ghost with session := page.ghost.session + 1 } }

/-- `changeView`, up to the loading of the list. -/
def switchView (view : View) : Page ι :=
  let page := (page.closeDetail me).takeList me
  { page.clearIssuedToken with view, page := 0, filters := .empty }

/-- The answer to the list request `requestId`, unless it comes too late. -/
def showReceipts (requestId : ℕ) (results : ReceiptPageResponse) : Page ι :=
  if page.employee.isNone || requestId ≠ page.listRequest then page
  else
    { page with
      receiptCount := results.totalElements
      receiptRows := results.content
      pageLabel := .shown (results.page + 1) (max results.totalPages 1) results.totalElements
      previousDisabled := results.page = 0
      nextDisabled := !results.hasNext
      ghost := { page.ghost with rowsRequest := requestId } }

def showIssued (issued : IssuedEmployee) : Page ι := { page with issued := some issued }

def showReissued (issued : IssuedEmployee) : Page ι := { page with reissued := some issued }

/-- The administrator still looks at the view from which a token was asked for. -/
def awaitsToken (requestId : ℕ) : Bool :=
  requestId = page.employeeTokenRequest && page.employee.any (·.role = .admin) &&
    page.view = .employees

/-- `state.uploadKey ||= crypto.randomUUID()`, where `uuid n` is the value that is drawn as
number `n`. -/
def takeKey (uuid : ℕ → JString) : Page ι :=
  match page.uploadKey with
  | some _ => page
  | none =>
      { page with
        uploadKey := some (uuid page.uuids)
        uuids := page.uuids + 1
        ghost :=
          { page.ghost with keys := (uuid page.uuids, page.receiptFile) :: page.ghost.keys } }

def selectFile (file : Option File) : Page ι :=
  let page := { page with previewUrl := none, uploadKey := none, receiptFile := file }
  match file with
  | none => page
  | some file =>
      if 10 * 1024 * 1024 < file.bytes.length ||
          !([JString.ofString "image/jpeg", JString.ofString "image/png"].contains file.type) then
        page.clearFile.notify (JString.ofString "10MB 이하의 JPG, PNG 이미지를 선택하세요.") true
      else { page with previewUrl := some file }

end Page

/-! ## Handlers -/

section Handlers

variable {ι : Type} [DecidableEq ι]

def failWith {α : Type} (message : String) : PageHandler ι α :=
  Program.throw (.failed (JString.ofString message) none)

/-- `await` a call of the browser. -/
def await (request : PageRequest ι) : PageHandler ι request.Result := do
  match ← Handler.wait request with
  | .ok result => pure result
  | .error e => Program.throw e

/-- `new AbortController()`. -/
def newController (me : ι) : PageHandler ι (Controller ι) := do
  let page ← read
  modify fun page => { page with controllers := page.controllers + 1 }
  return { handler := me, number := page.controllers, session := page.ghost.session }

/-- The token that requests other than GET carry. -/
def csrfToken (controller : Controller ι) (request : ApiRequest) :
    PageHandler ι (Option CsrfToken) := do
  if request.isGet then pure none
  else
    match ← await (.csrf controller) with
    | none => failWith "인증 정보를 가져오지 못했습니다. 새로고침 후 다시 시도하세요."
    | some token => pure (some token)

/-- The body of the `try` in `api`. -/
def exchange (me : ι) (controller : Controller ι) (request : ApiRequest) :
    PageHandler ι request.Result := do
  let token ← csrfToken controller request
  let status ← await (.fetch controller request token)
  if 200 ≤ status ∧ status ≤ 299 then await (.body controller request)
  else do
    let detail ← await (.readResponse controller)
    modify fun page =>
      if status = 401 ∧ page.employee.isSome then page.endSession me else page
    Program.throw (.failed (request.errorMessage status detail) (some status))

/-- What `api` throws on. -/
def PageError.ofExchange : PageError → PageError
  | typeError =>
      failed (JString.ofString "서버에 연결할 수 없습니다. Spring Boot가 실행 중인지 확인하세요.") none
  | e => e

/-- `api(path, { controller })`. -/
def apiWith (me : ι) (controller : Controller ι) (request : ApiRequest) :
    PageHandler ι request.Result := do
  modify fun page => { page with requests := controller :: page.requests }
  ((exchange me controller request).tryCatch fun e => Program.throw e.ofExchange).tryFinally
    (modify fun page => { page with requests := page.requests.filter (· ≠ controller) })

/-- `api(path)`. -/
def api (me : ι) (request : ApiRequest) : PageHandler ι request.Result := do
  let controller ← newController me
  apiWith me controller request

/-- The `try` of `run` with its `catch`: what the action throws is shown to the user. -/
def notifyErrors (action : PageHandler ι Unit) : PageHandler ι Unit :=
  action.tryCatch fun e =>
    match e with
    | .abort => pure ()
    | .typeError => modify (·.notify (JString.ofString "TypeError") true)
    | .failed message _ => modify (·.notify message true)

/-- `run`: the button is disabled while the action goes on, and enabled in the end,
whatever has happened to it meanwhile. -/
def run (button : Option Button) (action : PageHandler ι Unit) : PageHandler ι Unit :=
  match button with
  | none => notifyErrors action
  | some button => do
      modify (·.setDisabled button true)
      (notifyErrors action).tryFinally (modify (·.setDisabled button false))

def loadReceipts (me : ι) (background : Bool) : PageHandler ι Unit := do
  modify (·.takeList me)
  let page ← read
  let requestId := page.listRequest
  if page.filters.reversed then failWith "제출 종료일은 시작일 이후여야 합니다."
  else do
    modify fun page =>
      { page with
        previousDisabled := true
        nextDisabled := true
        pageLabel := if background then page.pageLabel else .loading }
    let results ← (api me (.receipts page.view page.page 10 page.filters)).tryCatch fun e => do
      modify fun page =>
        if requestId = page.listRequest then { page with pageLabel := .failed } else page
      Program.throw e
    modify (·.showReceipts requestId results)

def changeView (me : ι) (view : View) : PageHandler ι Unit := do
  modify (·.switchView me view)
  if view ≠ .employees then loadReceipts me false else pure ()

def enterWorkspace (me : ι) (employee : EmployeeResponse) : PageHandler ι Unit := do
  modify fun page => { page with employee := some employee, notice := none }
  changeView me .mine

def renderDetail (receipt : ReceiptResponse) : PageHandler ι Unit := do
  modify fun page => { page with detail := some receipt }
  let page ← read
  match page.employee with
  | some employee =>
      let offers := receipt.offers employee
      modify fun page =>
        { page.setDisabled (.decision .approve) !offers.approve with
          correctionDisabled := !offers.correct
          decisionHidden := !offers.review }
  | none =>
      -- `state.employee.role` is read where the receipt itself allows a correction
      if receipt.editable then Program.throw .typeError
      else
        modify fun page =>
          { page.setDisabled (.decision .approve) (receipt.status = some .needsRecapture ||
              receipt.status = some .unreadable || !receipt.hasApprovalFields) with
            correctionDisabled := true
            decisionHidden := true }

def openDetail (me : ι) (id : Long) : PageHandler ι Unit := do
  modify fun page => { page.closeDetail me with detailNotice := none }
  modify (·.takeDetail me)
  let page ← read
  let requestId := page.detailRequest
  let receipt ← api me (.receipt id)
  let page ← read
  if page.employee.isNone ∨ requestId ≠ page.detailRequest then pure ()
  else do
    renderDetail receipt
    modify fun page => { page with dialogOpen := true }

def refreshDetail (me : ι) : PageHandler ι Unit := do
  let page ← read
  match page.detail with
  | none => pure ()
  | some detail => do
      modify (·.takeDetail me)
      let requestId := page.detailRequest + 1
      let receipt ← api me (.receipt detail.id)
      let page ← read
      if page.employee.isNone ∨ requestId ≠ page.detailRequest then pure ()
      else
        match page.detail with
        | none => Program.throw .typeError
        | some detail => do
            renderDetail receipt
            if pendingJobs.contains detail.jobStatus ∧ ¬ pendingJobs.contains receipt.jobStatus
            then loadReceipts me true
            else pure ()

def loadAudit (me : ι) : PageHandler ι Unit := do
  let page ← read
  match page.detail with
  | none => pure ()
  | some detail => do
      let events ← api me (.auditEvents detail.id)
      modify fun page =>
        if page.detail.map (·.id) ≠ some detail.id then page
        else { page with auditEvents := events }

/-- The page still waits for this image. -/
def Page.isCurrent (page : Page ι) (receipt : ReceiptResponse) (controller : Controller ι) :
    Bool :=
  page.employee.isSome && page.detail.map (·.id) = some receipt.id &&
    page.originalImageRequest = some controller

/-- The `catch` of `toggleOriginalImage`. -/
def imageError : PageError → PageHandler ι Unit
  | .failed message (some 401) => modify (·.notify message true)
  | _ => pure ()

def toggleOriginalImage (me : ι) : PageHandler ι Unit := do
  let page ← read
  match page.detail with
  | none => pure ()
  | some receipt =>
      if page.originalImagePanel then modify (·.clearOriginalImage)
      else do
        let controller ← newController me
        modify fun page =>
          { page with originalImageRequest := some controller, originalImagePanel := true }
        let load : PageHandler ι Unit := do
          let blob ← apiWith me controller (.image receipt.id)
          let page ← read
          if page.isCurrent receipt controller then
            if blob.contentType = JString.ofString "image/jpeg" ∨
                blob.contentType = JString.ofString "image/png" then
              modify fun page => { page with originalImageUrl := some blob }
            else failWith "원본 이미지를 표시할 수 없습니다. JPG 또는 PNG 파일인지 확인하세요."
          else pure ()
        load.tryCatch imageError

/-- The events of the page. -/
inductive PageEvent
  | load
  | login (request : LoginRequest)
  | setPassword (request : SetPasswordRequest) (confirmPassword : JString)
  | logout
  | changeView (view : View)
  | selectFile (file : Option File)
  | upload
  | editFilters (filters : Filters)
  | submitFilters
  | refreshList
  | previousPage
  | nextPage
  | openDetail (id : Long)
  | closeDetail
  | refreshDetail
  | toggleOriginalImage
  | refreshAudit
  | correct (corrections : FieldCorrections)
  | decide (decision : ReviewDecision) (note : JString)
  | issue (request : IssueEmployeeRequest)
  | reissue (id : Long)
  | active (id : Long) (active : Bool)
  deriving DecidableEq, Repr

def initializePage (me : ι) : PageHandler ι Unit :=
  Program.tryCatch (do enterWorkspace me (← api me .me)) fun e =>
    match e with
    | .abort | .failed _ (some 401) => pure ()
    | .typeError => modify (·.notify (JString.ofString "TypeError") true)
    | .failed message _ => modify (·.notify message true)

def login (me : ι) (request : LoginRequest) : PageHandler ι Unit := do
  api me (.login request)
  enterWorkspace me (← api me .me)

def setPassword (me : ι) (request : SetPasswordRequest) (confirmPassword : JString) :
    PageHandler ι Unit := do
  if request.password ≠ confirmPassword then failWith "비밀번호 확인 값이 일치하지 않습니다."
  else if 72 < request.password.getBytes.length then
    failWith "비밀번호는 UTF-8 기준 72바이트 이하여야 합니다."
  else do
    api me (.password request)
    modify (·.notify (JString.ofString "비밀번호가 설정되었습니다. 발급받은 로그인 ID로 로그인하세요.") false)

def logout (me : ι) : PageHandler ι Unit := do
  api me .logout
  modify fun page => (page.endSession me).notify (JString.ofString "로그아웃했습니다.") false

def upload (uuid : ℕ → JString) (me : ι) : PageHandler ι Unit := do
  modify (·.takeKey uuid)
  let page ← read
  let accepted ← api me (.upload (page.uploadKey.getD []) page.receiptFile)
  modify fun page => { page.clearFile with page := 0, filters := .empty }
  modify (·.notify (JString.ofString
    s!"영수증 #{accepted.receiptId}이 접수되었습니다. 처리 결과는 ‘새로고침’을 눌러 확인하세요.") false)
  loadReceipts me false
  openDetail me accepted.receiptId

/-- What follows a correction or a decision that was accepted. -/
def showUpdated (me : ι) (receipt updated : ReceiptResponse) (message : JString) :
    PageHandler ι Unit := do
  let page ← read
  if page.detail.map (·.id) ≠ some receipt.id then pure ()
  else do
    renderDetail updated
    modify (·.notify message false)
    loadReceipts me true
    loadAudit me

def correct (me : ι) (corrections : FieldCorrections) : PageHandler ι Unit := do
  let page ← read
  match page.detail with
  | none => pure ()
  | some receipt => do
      let updated ← api me (.correctFields receipt.id receipt.version corrections)
      showUpdated me receipt updated (JString.ofString "수정 내용을 저장했습니다.")

def decideReceipt (me : ι) (decision : ReviewDecision) (note : JString) :
    PageHandler ι Unit := do
  let page ← read
  match page.detail with
  | none => pure ()
  | some receipt => do
      let updated ← api me (.decide receipt.id receipt.version decision note)
      showUpdated me receipt updated
        (JString.ofString (if decision = .approve then "승인했습니다." else "반려했습니다."))

def issue (me : ι) (request : IssueEmployeeRequest) : PageHandler ι Unit := do
  modify (·.clearIssuedToken)
  let page ← read
  let requestId := page.employeeTokenRequest
  let issued ← api me (.issue request)
  modify fun page =>
    if page.awaitsToken requestId then
      (page.showIssued issued).notify
        (JString.ofString "직원 계정을 발급했습니다. 아래 설정 토큰을 확인하세요.") false
    else page

def reissue (me : ι) (id : Long) : PageHandler ι Unit := do
  modify (·.clearIssuedToken)
  let page ← read
  let requestId := page.employeeTokenRequest
  let issued ← api me (.reissueSetupToken id)
  modify fun page =>
    if page.awaitsToken requestId then
      (page.showReissued issued).notify
        (JString.ofString "새 비밀번호 설정 토큰을 발급했습니다. 기존 토큰 대신 새 토큰을 전달하세요.") false
    else page

def setActive (me : ι) (id : Long) (active : Bool) : PageHandler ι Unit := do
  let employee ← api me (.active id active)
  let done := JString.ofString (if employee.active then "활성화" else "비활성화")
  modify (·.notify
    (employee.name ++ JString.ofString " 계정을 " ++ done ++ JString.ofString "했습니다.") false)

/-- The handler of an event. -/
def PageEvent.handler (uuid : ℕ → JString) (me : ι) : PageEvent → PageHandler ι Unit
  | load => initializePage me
  | login request => run (some .login) (ReceiptApp.login me request)
  | setPassword request confirmPassword =>
      run (some .setup) (ReceiptApp.setPassword me request confirmPassword)
  | logout => run (some .logout) (ReceiptApp.logout me)
  | changeView view => run none (ReceiptApp.changeView me view)
  | selectFile file => modify (·.selectFile file)
  | upload => run (some .upload) (ReceiptApp.upload uuid me)
  | editFilters filters => modify fun page => { page with filters }
  | submitFilters => run (some .filter) do
      modify fun page => { page with page := 0 }
      loadReceipts me false
  | refreshList => run (some .refreshList) (loadReceipts me false)
  | previousPage => do
      modify fun page => { page with page := page.page - 1 }
      run none (loadReceipts me false)
  | nextPage => do
      modify fun page => { page with page := page.page + 1 }
      run none (loadReceipts me false)
  -- the button stands in a row of the list
  | openDetail id => run none (ReceiptApp.openDetail me id)
  | closeDetail => modify (·.closeDetail me)
  | refreshDetail => run (some .refreshDetail) (ReceiptApp.refreshDetail me)
  | toggleOriginalImage => ReceiptApp.toggleOriginalImage me
  | refreshAudit => run (some .refreshAudit) (loadAudit me)
  | correct corrections => run (some .correct) (ReceiptApp.correct me corrections)
  | decide decision note => run (some (.decision decision)) (decideReceipt me decision note)
  | issue request => run (some .issue) (ReceiptApp.issue me request)
  | reissue id => run (some .reissue) (ReceiptApp.reissue me id)
  | active id isActive => run (some .active) (setActive me id isActive)

end Handlers

/-! ## Runs of the page -/

/-- What the browser may answer: a call of an aborted controller is not answered any more,
and `genuine` says which responses the server gives to a request that is made after so many
runs of `endSession`. -/
def PageRequest.Possible {ι : Type} (genuine : ℕ → (request : ApiRequest) → request.Result → Prop)
    (site : Site (Page ι) (PageRequest ι)) (request : PageRequest ι) (answer : request.Answer) :
    Prop :=
  (request.controller ∈ site.state.aborted → answer = .error .abort) ∧
    match request, answer with
    | .body controller request, .ok result => genuine controller.session request result
    | _, _ => True

def pageRules {ι : Type} [DecidableEq ι]
    (genuine : ℕ → (request : ApiRequest) → request.Result → Prop) (uuid : ℕ → JString)
    (events : ι → PageEvent) :
    LoopRules ι (Page ι) (PageRequest ι) PageRequest.Answer PageError Unit where
  handler i := (events i).handler uuid i
  possible := PageRequest.Possible genuine

abbrev PageLoop (ι : Type) : Type :=
  EventLoop ι (Page ι) (PageRequest ι) PageRequest.Answer PageError Unit

end ReceiptApp

end ReceiptReview
