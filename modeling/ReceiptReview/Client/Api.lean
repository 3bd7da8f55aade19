import ReceiptReview.Model.Account
import ReceiptReview.Program.EventLoop
import ReceiptReview.Service.Listing
import ReceiptReview.Service.Upload

/-!
# What the page sends and receives

The requests of the browser page to the server, with the response that each of them has
when it succeeds, and the `api` function of `receipt-app.js` over the calls of the browser
that it waits for.  Numbers and dates of the JSON texts are taken as exact.
-/

namespace ReceiptReview

open Java

/-! ## Requests -/

/-- `AuditEventResponse`. -/
structure AuditEventResponse where
  occurredAt : Instant
  actor : String
  action : AuditAction
  previousStatus : Option ReceiptStatus
  newStatus : Option ReceiptStatus
  details : List (String × Detail)
  deriving DecidableEq, Repr

/-- `AuditEventResponse.from`. -/
def AuditEventResponse.ofEvent (event : AuditEvent) : AuditEventResponse where
  occurredAt := event.occurredAt
  actor := event.actor
  action := event.action
  previousStatus := event.previousStatus
  newStatus := event.newStatus
  details := event.details

structure ReceiptAcceptedResponse where
  receiptId : Long
  jobId : Long
  jobStatus : ExtractionJobStatus
  acceptedAt : Instant
  deriving DecidableEq, Repr

namespace ReceiptApp

inductive View
  | mine
  | review
  | employees
  deriving DecidableEq, Repr

/-- What stands in the form of the filters; a date that is not given is the empty text. -/
structure Filters where
  status : Option ReceiptStatus
  from_ : JString
  to_ : JString
  deriving DecidableEq, Repr

/-- A file that the user has selected. -/
structure File where
  name : JString
  type : JString
  bytes : List UInt8
  deriving DecidableEq, Repr

structure CsrfToken where
  headerName : JString
  token : JString
  deriving DecidableEq, Repr

/-- A request to an endpoint of the server. -/
inductive ApiRequest
  | me
  | login (request : LoginRequest)
  | logout
  | password (request : SetPasswordRequest)
  | receipts (view : View) (page size : ℕ) (filters : Filters)
  | receipt (id : Long)
  | image (id : Long)
  | auditEvents (id : Long)
  | upload (idempotencyKey : JString) (file : Option File)
  | correctFields (id : Long) (version : ℕ) (corrections : FieldCorrections)
  | decide (id : Long) (version : ℕ) (decision : ReviewDecision) (note : JString)
  | issue (request : IssueEmployeeRequest)
  | reissueSetupToken (id : Long)
  | active (id : Long) (active : Bool)
  deriving DecidableEq, Repr

namespace ApiRequest

/-- The body of a response that succeeds. -/
@[reducible] def Result : ApiRequest → Type
  | me => EmployeeResponse
  | login _ | logout | password _ => Unit
  | receipts .. => ReceiptPageResponse
  | receipt _ | correctFields .. | decide .. => ReceiptResponse
  | image _ => ReceiptImageResponse
  | auditEvents _ => List AuditEventResponse
  | upload .. => ReceiptAcceptedResponse
  | issue _ | reissueSetupToken _ => IssuedEmployee
  | active .. => EmployeeResponse

/-- `method === "GET"`. -/
def isGet : ApiRequest → Bool
  | me | receipts .. | receipt _ | image _ | auditEvents _ => true
  | _ => false

/-- The messages for the statuses that the page knows. -/
def message? (request : ApiRequest) (status : ℕ) : Option String :=
  match status, request with
  | 400, password _ =>
      some "설정 토큰과 비밀번호를 확인하세요. 토큰이 만료되었거나 이미 사용되었을 수 있습니다."
  | 400, _ => some "입력값을 확인하세요."
  | 401, login _ => some "로그인 ID와 비밀번호를 확인하세요."
  | 401, _ => some "세션이 만료되었습니다. 다시 로그인하세요."
  | 403, _ => some "권한이 없거나 인증 정보가 변경되었습니다. 다시 조회하거나 로그인하세요."
  | 404, image _ => some "원본 이미지를 찾을 수 없거나 접근할 수 없습니다."
  | 404, _ => some "해당 자료가 없거나 접근할 수 없습니다."
  | 409, _ => some "데이터가 변경되었거나 중복된 요청입니다. 최신 내용을 다시 조회하세요."
  | 413, _ => some "이미지 크기는 10MB 이하여야 합니다."
  | 502, _ => some "자료를 가져오지 못했습니다. 잠시 후 다시 시도하세요."
  | _, _ => none

/-- `data?.detail || messages[status] || ...`. -/
def errorMessage (request : ApiRequest) (status : ℕ) (detail : Option JString) : JString :=
  (detail.filter (· ≠ []) <|> (request.message? status).map JString.ofString).getD
    (JString.ofString s!"요청에 실패했습니다. (HTTP {status})")

end ApiRequest

/-- What a handler of the page may throw. -/
inductive PageError
  /-- `AbortError`. -/
  | abort
  /-- `TypeError`: the network has failed, or a value is missing. -/
  | typeError
  | failed (message : JString) (status : Option ℕ)
  deriving DecidableEq, Repr

/-- An `AbortController`, named by the handler that has created it.  No code reads
`session`, the number of sessions that had ended by then. -/
structure Controller (ι : Type) where
  handler : ι
  number : ℕ
  session : ℕ
  deriving DecidableEq, Repr

/-- The calls of the browser that the page waits for. -/
inductive PageRequest (ι : Type)
  | csrf (controller : Controller ι)
  | fetch (controller : Controller ι) (request : ApiRequest) (token : Option CsrfToken)
  | readResponse (controller : Controller ι)
  | body (controller : Controller ι) (request : ApiRequest)
  deriving DecidableEq

namespace PageRequest

variable {ι : Type}

@[reducible] def Result : PageRequest ι → Type
  | csrf _ => Option CsrfToken
  | fetch .. => ℕ
  | readResponse _ => Option JString
  | body _ request => request.Result

@[reducible] def Answer (request : PageRequest ι) : Type := Except PageError request.Result

def controller : PageRequest ι → Controller ι
  | csrf controller | fetch controller .. | readResponse controller | body controller _ =>
      controller

end PageRequest

end ReceiptApp

end ReceiptReview
