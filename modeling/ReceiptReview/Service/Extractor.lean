import ReceiptReview.Java.Base64
import ReceiptReview.Java.Json
import ReceiptReview.Model.Configuration
import ReceiptReview.Service.Processor

/-!
# The extractor

`OpenAiReceiptExtractor`: the image is sent to the provider as a data URL, the first text
that the response decides on is read as the data of a receipt, and whatever goes wrong is
an `ExtractionException`.
-/

namespace ReceiptReview

open Java

/-- `receipt.openai`, as the extractor reads it. -/
structure OpenAi extends OpenAiProperties where
  apiKey : JString
  model : JString
  deriving DecidableEq, Repr

/-- What a request to the provider ends with. -/
inductive RestOutcome
  | response (body : Option JsonNode)
  /-- A `RestClientResponseException`. -/
  | responseException (statusCode : ℕ)
  | resourceAccessException
  /-- Any other `RestClientException`. -/
  | restClientException
  /-- Any other exception. -/
  | exception
  deriving Repr

/-- What reading a text as a `ReceiptData` ends with; the text `null` is read as `null`. -/
inductive ReadOutcome
  | value (data : Option ReceiptData)
  | jsonProcessingException
  /-- Any other exception. -/
  | exception
  deriving DecidableEq, Repr

/-- The requests of the extractor to the provider and to the object mapper. -/
inductive ExtractorRequest
  | post (body : JsonNode)
  | readValue (text : JString)
  deriving Repr

@[reducible] def ExtractorRequest.Answer : ExtractorRequest → Type
  | post _ => RestOutcome
  | readValue _ => ReadOutcome

abbrev ExtractorProgram (α : Type) : Type :=
  Program ExtractorRequest ExtractorRequest.Answer Failure α

namespace OpenAiReceiptExtractor

def INSTRUCTIONS : String :=
  "한국어 카드 영수증 한 장에서 구조화된 값을 추출하세요.\n" ++
  "이미지에서 명확히 읽을 수 없는 값은 절대 추측하지 말고 null을 반환하세요.\n" ++
  "날짜는 YYYY-MM-DD, 금액은 숫자로 반환하세요. confidence 값은 생성하지 마세요.\n"

def extractionException (message : String) : Failure :=
  .extraction (some (.ofString message))

/-! ## The request -/

/-- `image/jpeg` stands in for a content type that is not known. -/
def mediaType (request : ExtractionRequest) : JString :=
  request.contentType.getD (.ofString "image/jpeg")

def dataUrl (request : ExtractionRequest) : JString :=
  .ofString "data:" ++ mediaType request ++ .ofString ";base64," ++ Base64.encode request.image

/-- A type in a schema, or `null`. -/
def nullable (type : String) : JsonNode :=
  .ofEntries [("type", .array [.ofString type, .ofString "null"])]

def required (names : List String) : JsonNode :=
  .array (names.map .ofString)

def receiptFormat : JsonNode :=
  let nullableString := nullable "string"
  let nullableNumber := nullable "number"
  let lineItem : JsonNode := .ofEntries [
    ("type", .ofString "object"),
    ("additionalProperties", .boolean false),
    ("properties", .ofEntries [
      ("name", nullableString),
      ("quantity", nullable "integer"),
      ("unitPrice", nullableNumber),
      ("amount", nullableNumber)]),
    ("required", required ["name", "quantity", "unitPrice", "amount"])]
  .ofEntries [
    ("type", .ofString "json_schema"),
    ("name", .ofString "korean_receipt"),
    ("strict", .boolean true),
    ("schema", .ofEntries [
      ("type", .ofString "object"),
      ("additionalProperties", .boolean false),
      ("properties", .ofEntries [
        ("shopName", nullableString),
        ("date", nullableString),
        ("totalAmount", nullableNumber),
        ("businessRegistrationNumber", nullableString),
        ("paymentMethod", nullableString),
        ("lineItems", .ofEntries [("type", .ofString "array"), ("items", lineItem)])]),
      ("required", required ["shopName", "date", "totalAmount", "businessRegistrationNumber",
        "paymentMethod", "lineItems"])])]

def body (properties : OpenAi) (request : ExtractionRequest) : JsonNode :=
  .ofEntries [
    ("model", .text properties.model),
    ("store", .boolean false),
    ("input", .array [.ofEntries [
      ("role", .ofString "user"),
      ("content", .array [
        .ofEntries [("type", .ofString "input_text"), ("text", .ofString INSTRUCTIONS)],
        .ofEntries [("type", .ofString "input_image"), ("image_url", .text (dataUrl request)),
          ("detail", .ofString "high")]])]]),
    ("text", .ofEntries [("format", receiptFormat)])]

/-- What follows the last comma. -/
theorem rtakeWhile_ne_append_cons {units rest : JString} {unit : UInt16} (h : unit ∉ rest) :
    (units ++ unit :: rest).rtakeWhile (· ≠ unit) = rest := by
  have hrest : ∀ other ∈ rest.reverse, decide (other ≠ unit) = true := by
    intro other hother
    have hne : other ≠ unit := by
      rintro rfl
      exact h (List.mem_reverse.mp hother)
    exact decide_eq_true hne
  rw [List.rtakeWhile, List.reverse_append, List.reverse_cons, List.append_assoc,
    List.takeWhile_append_of_pos hrest]
  simp

/-- The image is what follows the last comma of its data URL. -/
theorem rtakeWhile_dataUrl (request : ExtractionRequest) :
    (dataUrl request).rtakeWhile (· ≠ 0x2C) = Base64.encode request.image := by
  have hcomma : ∀ bytes, (0x2C : UInt16) ∉ Base64.encode bytes := by
    intro bytes hmem
    exact absurd (Base64.mem_encode hmem) (by decide)
  have hurl : dataUrl request = .ofString "data:" ++ mediaType request ++ .ofString ";base64" ++
      0x2C :: Base64.encode request.image := by
    have hmark : JString.ofString ";base64," = JString.ofString ";base64" ++ [0x2C] := by decide
    simp [dataUrl, hmark]
  rw [hurl]
  exact rtakeWhile_ne_append_cons (hcomma _)

/-- A body is sent for one image only. -/
theorem image_of_body {properties properties' : OpenAi} {request request' : ExtractionRequest}
    (h : body properties request = body properties' request') : request.image = request'.image := by
  have hurl : dataUrl request = dataUrl request' := by
    simp only [body, JsonNode.ofEntries, List.map_cons, List.map_nil, JsonNode.object.injEq,
      List.cons.injEq, Prod.mk.injEq, JsonNode.array.injEq, JsonNode.text.injEq] at h
    tauto
  apply Base64.encode_injective
  rw [← rtakeWhile_dataUrl, hurl, rtakeWhile_dataUrl]

/-! ## The response -/

/-- One pass of the inner loop: it returns, it throws, or it goes on. -/
def inspectContent (content : JsonNode) : Option (Except Failure JString) :=
  if (content.path (.ofString "type")).asText = .ofString "output_text" ∧
      content.hasNonNull (.ofString "text") then
    some (.ok (content.path (.ofString "text")).asText)
  else if (content.path (.ofString "type")).asText = .ofString "refusal" then
    some (.error (extractionException "모델이 이미지 처리를 거부했습니다."))
  else none

def findOutputText (response : Option JsonNode) : Except Failure JString :=
  match response with
  | none => .error (extractionException "OpenAI 응답 본문이 없습니다.")
  | some response =>
      let found := (response.path (.ofString "output")).elements.findSome? fun output =>
        (output.path (.ofString "content")).elements.findSome? inspectContent
      found.getD (.error (extractionException "OpenAI 응답에서 구조화 출력을 찾지 못했습니다."))

/-! ## The call -/

/-- The rest of the `try`, after the response has arrived. -/
def readResponse (properties : OpenAi) (response : Option JsonNode) :
    ExtractorProgram ExtractionResult := do
  let outputText ← Program.ofExcept (findOutputText response)
  let outcome : ReadOutcome ← Program.request (ExtractorRequest.readValue outputText)
  match outcome with
  | .value data => return ⟨data, .ofString "openai", properties.model⟩
  | .jsonProcessingException =>
      Program.throw (extractionException "OpenAI 구조화 응답을 영수증 데이터로 변환하지 못했습니다.")
  | .exception =>
      Program.throw (extractionException "OpenAI 영수증 추출 중 예상하지 못한 오류가 발생했습니다.")

/-- Each `catch` stands where its exception is thrown. -/
def extract (properties : OpenAi) (request : ExtractionRequest) :
    ExtractorProgram ExtractionResult := do
  if properties.apiKey.isBlank then
    Program.throw (extractionException "OPENAI_API_KEY가 설정되지 않았습니다.")
  else
    let outcome : RestOutcome ← Program.request (ExtractorRequest.post (body properties request))
    match outcome with
    | .response response => readResponse properties response
    | .responseException statusCode =>
        Program.throw (extractionException
          ("OpenAI 요청에 실패했습니다. HTTP 상태: " ++ toString statusCode))
    | .resourceAccessException =>
        Program.throw (extractionException "OpenAI 연결 또는 응답 제한 시간을 초과했습니다.")
    | .restClientException =>
        Program.throw (extractionException "OpenAI 응답 본문을 해석하지 못했습니다.")
    | .exception =>
        Program.throw (extractionException "OpenAI 영수증 추출 중 예상하지 못한 오류가 발생했습니다.")

/-! ## What the extractor returns and throws -/

section Outcome

variable {properties : OpenAi} {request : ExtractionRequest}
variable {answers : (request : ExtractorRequest) → request.Answer → Prop}

theorem inspectContent_eq_error {content : JsonNode} {e : Failure}
    (h : inspectContent content = some (.error e)) :
    ∃ message, e = extractionException message := by
  unfold inspectContent at h
  split at h
  · cases h
  · split at h
    · cases h
      exact ⟨_, rfl⟩
    · cases h

theorem findOutputText_eq_error {response : Option JsonNode} {e : Failure}
    (h : findOutputText response = .error e) : ∃ message, e = extractionException message := by
  cases response with
  | none =>
      cases h
      exact ⟨_, rfl⟩
  | some response =>
      simp only [findOutputText] at h
      cases hfound : (response.path (.ofString "output")).elements.findSome? fun output =>
          (output.path (.ofString "content")).elements.findSome? inspectContent with
      | none =>
          rw [hfound] at h
          cases h
          exact ⟨_, rfl⟩
      | some result =>
          rw [hfound] at h
          obtain ⟨output, -, hcontents⟩ := List.exists_of_findSome?_eq_some hfound
          obtain ⟨content, -, hdecided⟩ := List.exists_of_findSome?_eq_some hcontents
          rw [show result = .error e from h] at hdecided
          exact inspectContent_eq_error hdecided

/-- The outcome was read from the first text that the response decides on, or it is an
`ExtractionException`. -/
def Extracted (properties : OpenAi) (request : ExtractionRequest)
    (answers : (request : ExtractorRequest) → request.Answer → Prop) :
    Except Failure ExtractionResult → Prop
  | .ok extraction => ∃ response outputText,
      answers (.post (body properties request)) (.response response) ∧
        findOutputText response = .ok outputText ∧
        answers (.readValue outputText) (.value extraction.data)
  | .error e => ∃ message, e = extractionException message

/-- Whatever the provider and the mapper answer. -/
theorem wp_extract :
    Program.wp (fun (_ : Unit) request answer _ => answers request answer) Eq
      (extract properties request) (fun outcome _ => Extracted properties request answers outcome)
      () := by
  unfold extract
  by_cases hkey : properties.apiKey.isBlank
  · rw [if_pos hkey]
    exact ⟨_, rfl⟩
  · rw [if_neg hkey]
    intro _ _ outcome _ hposted
    cases outcome with
    | response response =>
        show Program.wp _ Eq (readResponse properties response) _ _
        unfold readResponse
        cases htext : findOutputText response with
        | error e => exact findOutputText_eq_error htext
        | ok outputText =>
            intro _ _ outcome _ hread
            cases outcome with
            | value data => exact ⟨response, outputText, hposted, htext, hread⟩
            | jsonProcessingException | exception => exact ⟨_, rfl⟩
    | responseException | resourceAccessException | restClientException | exception =>
        exact ⟨_, rfl⟩

end Outcome

end OpenAiReceiptExtractor

end ReceiptReview
