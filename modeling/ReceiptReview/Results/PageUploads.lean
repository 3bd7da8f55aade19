import ReceiptReview.Results.PageSession
import ReceiptReview.Results.Retries

/-!
# Uploads of the page

The page keeps the key of an upload until the upload is accepted or another file is
selected, so a key that it sends stands for one file (`file_of_key`).  This is what the
intake asks of its callers: uploads of the page that are sent, lost, repeated and answered
in any order store each new image once (`page_uploads_stored_once`).
-/

namespace ReceiptReview

open Java ReceiptApp ReceiptUploadService
open Store hiding Page PageRequest

variable {P : Platform} {employees : Table Employee} {genuine : Genuine} {uuid : ℕ → JString}
variable {ι κ : Type} [DecidableEq ι] [DecidableEq κ] {events : κ → PageEvent}
variable {page : PageLoop κ} {exclusive : Prop} {calls : ι → UploadCall}
variable {base : List Commit} {pool pool' : CallsPool ι}

/-- What the endpoint hands to the service. -/
def ReceiptController.uploadCall (ownerId : Long) (idempotencyKey : JString) (file : File) :
    UploadCall where
  companyId := .ofString "internal"
  idempotencyKey := some idempotencyKey
  fileName := some file.name
  contentType := some file.type
  bytes := file.bytes
  ownerId := some ownerId

/-- `crypto.randomUUID()` draws texts without blanks, which the database tells apart. -/
structure DrawsKeys (P : Platform) (uuid : ℕ → JString) : Prop where
  normalize : ∀ n, normalize (some (uuid n)) = some (uuid n)
  isBlank : ∀ n, (uuid n).isBlank = false
  distinct : ∀ m n, P.textEq (uuid m) (uuid n) = true → m = n

theorem DrawsKeys.injective (h : DrawsKeys P uuid) : Function.Injective uuid := fun m n heq =>
  h.distinct m n (heq ▸ textEq_refl _)

/-- The page has sent this file under this key. -/
def SentUpload (page : PageLoop κ) (key : JString) (file : File) : Prop :=
  ∃ controller token, .fetch controller (.upload key (some file)) token ∈ page.site.sent

/-- A key that the page sends was drawn for the file that it sends. -/
theorem SentUpload.drawn (hidentified : genuine.Identified) (huuid : DrawsKeys P uuid)
    (hpage : EventLoop.Run (pageRules genuine uuid events) Page.initial page) {key : JString}
    {file : File} (h : SentUpload page key file) :
    (key, some file) ∈ page.site.state.ghost.keys ∧ ∃ n, key = uuid n := by
  obtain ⟨controller, token, hsent⟩ := h
  obtain ⟨hsound, hasked⟩ :=
    hpage.inv (Page.keeps_rules hidentified huuid.injective) Page.inv_initial
  have hdrawn : (key, some file) ∈ page.site.state.ghost.keys :=
    hasked controller _ token hsent
  obtain ⟨n, -, hkey⟩ := hsound.drawn _ hdrawn
  exact ⟨hdrawn, n, hkey⟩

/-- A key that the page sends stands for one file. -/
theorem file_of_key (hidentified : genuine.Identified) (huuid : DrawsKeys P uuid)
    (hpage : EventLoop.Run (pageRules genuine uuid events) Page.initial page) {key : JString}
    {file file' : File} (h : SentUpload page key file) (h' : SentUpload page key file') :
    file' = file := by
  have hkeys := (hpage.inv (Page.keeps_rules hidentified huuid.injective) Page.inv_initial).1.keys
  have hsame := List.inj_on_of_nodup_map hkeys (h'.drawn hidentified huuid hpage).1
    (h.drawn hidentified huuid hpage).1 rfl
  simpa using hsame

/-- No image is selected for two uploads. -/
def SelectsOnce (P : Platform) (page : Page κ) : Prop :=
  ∀ drawn ∈ page.ghost.keys, ∀ drawn' ∈ page.ghost.keys, ∀ file ∈ drawn.2, ∀ file' ∈ drawn'.2,
    P.sha256 file.bytes = P.sha256 file'.bytes → drawn = drawn'

/-- Beside an upload of the page, another one repeats it or has nothing to do with it. -/
theorem retries_or_unrelated (hidentified : genuine.Identified) (huuid : DrawsKeys P uuid)
    (hpage : EventLoop.Run (pageRules genuine uuid events) Page.initial page)
    (hselects : SelectsOnce P page.site.state) {key key' : JString} {file file' : File}
    (h : SentUpload page key file) (h' : SentUpload page key' file') (ownerId ownerId' : Long) :
    (key' = key → UploadCall.Retries P (ReceiptController.uploadCall ownerId key file) key
      (ReceiptController.uploadCall ownerId' key' file')) ∧
    (key' ≠ key → UploadCall.Unrelated P (ReceiptController.uploadCall ownerId key file) key
      (ReceiptController.uploadCall ownerId' key' file')) := by
  obtain ⟨hdrawn, n, rfl⟩ := h.drawn hidentified huuid hpage
  obtain ⟨hdrawn', n', rfl⟩ := h'.drawn hidentified huuid hpage
  constructor
  · intro hkey
    rw [hkey] at h'
    obtain rfl := file_of_key hidentified huuid hpage h h'
    exact ⟨rfl, rfl, _, huuid.normalize n', huuid.isBlank n', hkey ▸ textEq_refl _⟩
  · intro hkey
    constructor
    · rintro ⟨-, himage⟩
      have hsha : P.sha256 file'.bytes = P.sha256 file.bytes :=
        P.collate_sha256 _ _ (eq_of_beq himage)
      have hsame := hselects _ hdrawn' _ hdrawn file' rfl file rfl hsha
      exact hkey (congrArg Prod.fst hsame)
    · intro key'' hkey'' hsame
      rw [ReceiptController.uploadCall, huuid.normalize] at hkey''
      cases hkey''
      exact hkey (congrArg uuid (huuid.distinct _ _ hsame.2))

/-- The calls that reach the server were sent by the page, in whatever number. -/
def ReachesFrom (page : PageLoop κ) (call : UploadCall) : Prop :=
  ∃ key file ownerId, SentUpload page key file ∧
    call = ReceiptController.uploadCall ownerId key file

/-- A page whose user selects no image twice uploads each new image once.  Let the lock
of an image exclude, and let all uploads come from the page: its requests are sent and
answered in any order, and each of them reaches the server any number of times, beside
workers and reviewers.  If neither the image nor the key was there before, then once a
call has succeeded the image is stored once, with one job that is not flagged as a
duplicate, and every other call under the same key returns the same receipt. -/
theorem page_uploads_stored_once (hidentified : genuine.Identified) (huuid : DrawsKeys P uuid)
    (hpage : EventLoop.Run (pageRules genuine uuid events) Page.initial page)
    (hselects : SelectsOnce P page.site.state) (hreaches : ∀ i, ReachesFrom page (calls i))
    (hbase : Run P employees base) (hcalls : CallsRun P employees True calls base pool)
    {first : ι} {key : JString} {result : UploadResult}
    (hkey : (calls first).idempotencyKey = some key)
    (hfresh : (current employees base).findByCompanyIdAndImageSha256 P (calls first).companyId
      (P.sha256 (calls first).bytes) = none)
    (hunused : (current employees base).findByCompanyIdAndIdempotencyKey P
      (calls first).companyId key = none)
    (hended : pool.Ended first (.ok result))
    (hlater : Relation.ReflTransGen (Pool.Step (callsRules P employees True calls)) pool pool') :
    (current employees pool'.shared.trace).StoredOnce P (calls first) key result.receipt.id ∧
      ∀ i result', (calls i).idempotencyKey = some key → pool'.Ended i (.ok result') →
        result'.receipt.id = result.receipt.id := by
  obtain ⟨key₁, file, ownerId, hsent, hfirst⟩ := hreaches first
  obtain rfl : key₁ = key := by rw [hfirst] at hkey; exact Option.some.inj hkey
  -- every call of the pool repeats the first one or has another image and key
  have hkind : ∀ i, ((calls i).idempotencyKey = some key₁ →
        UploadCall.Retries P (calls first) key₁ (calls i)) ∧
      ((calls i).idempotencyKey ≠ some key₁ →
        UploadCall.Unrelated P (calls first) key₁ (calls i)) := by
    intro i
    obtain ⟨key', file', ownerId', hsent', hcall⟩ := hreaches i
    obtain ⟨hretries, hunrelated⟩ :=
      retries_or_unrelated hidentified huuid hpage hselects hsent hsent' ownerId ownerId'
    rw [hcall, hfirst]
    exact ⟨fun h => hretries (Option.some.inj h), fun h => hunrelated fun heq => h (heq ▸ rfl)⟩
  have hkinds : ∀ i, UploadCall.Retries P (calls first) key₁ (calls i) ∨
      UploadCall.Unrelated P (calls first) key₁ (calls i) := fun i =>
    (em ((calls i).idempotencyKey = some key₁)).imp (hkind i).1 (hkind i).2
  have habsent := hbase.absent hfresh
  have hunbound := hbase.unbound hunused
  have hcalls' : CallsRun P employees True calls base pool' := Pool.Run.later hcalls hlater
  obtain ⟨earlier, hearlier, hofImage⟩ :=
    hcalls.returned_of_retries hkinds habsent hunbound hbase ((hkind first).1 hkey) hended
  obtain ⟨receipt, hreceipt, hsame⟩ := hcalls'.stored_later hbase hlater hearlier
  have hofImage' : receipt.OfImage P (calls first) := by
    rw [Receipt.OfImage, hsame.companyId, hsame.imageSha256]
    exact hofImage
  refine ⟨hcalls'.storedOnce hkinds hbase habsent hunbound trivial hreceipt hofImage', ?_⟩
  -- another call under the key has returned a receipt of the same image
  intro i result' hkey' hended'
  obtain ⟨other, hother, himage'⟩ :=
    hcalls'.returned_of_retries hkinds habsent hunbound hbase ((hkind i).1 hkey') hended'
  exact (hcalls'.run hbase).eq_of_sameImage hother hreceipt
    (textEq_trans himage'.1 (textEq_symm hofImage'.1))
    (textEq_trans himage'.2 (textEq_symm hofImage'.2))

namespace Sample

theorem trim_uuidOf (n : ℕ) : (uuidOf n).trim = uuidOf n := by
  have hfront : (uuidOf n).dropWhile (· ≤ 0x20) = uuidOf n := by
    rw [uuidOf, List.replicate_succ, List.dropWhile_cons_of_neg (by decide)]
  have hend : (uuidOf n).rdropWhile (· ≤ 0x20) = uuidOf n := by
    rw [uuidOf, List.replicate_succ', List.rdropWhile_concat_neg _ _ _ (by decide)]
  rw [JString.trim, hfront, hend]

theorem isBlank_uuidOf (n : ℕ) : (uuidOf n).isBlank = false := by
  have hletter : isWhitespace 0x61 = false := by decide
  rw [uuidOf, JString.isBlank, List.replicate_succ, List.all_cons, hletter, Bool.false_and]

theorem drawsKeys_uuidOf : DrawsKeys platform uuidOf where
  normalize n := by
    simp [ReceiptUploadService.normalize, isBlank_uuidOf, trim_uuidOf]
  isBlank := isBlank_uuidOf
  distinct m n h := by
    have hlength := congrArg List.length (eq_of_beq h)
    simpa [platform, uuidOf] using hlength

def photo : File where
  name := .ofString "receipt.jpg"
  type := .ofString "image/jpeg"
  bytes := imageA

/-- No response to an upload arrives. -/
def uploadAnswers : (request : ApiRequest) → Option request.Result
  | .upload .. => none
  | request => some (answers request)

/-- A photo is selected and uploaded twice. -/
def uploadEvents : ℕ → PageEvent
  | 0 => .load
  | 1 => .selectFile (some photo)
  | _ => .upload

def uploadPage : PageLoop ℕ :=
  [.event 0, .answer 0, .answer 0, .answer 0, .answer 0, .event 1, .event 2, .answer 2, .answer 2,
    .answer 2, .event 3, .answer 3, .answer 3].foldl
    (EventLoop.act (pageRules answered uuidOf uploadEvents) (serveAs uploadAnswers))
    (.initial Page.initial)

theorem uploadPage_run :
    EventLoop.Run (pageRules answered uuidOf uploadEvents) Page.initial uploadPage := by
  have hanswered : ∀ n request response, uploadAnswers request = some response →
      answered n request response := by
    intro n request response h
    cases request <;> first | exact (Option.some.inj h).symm | cases h
  exact EventLoop.Run.initial.steps (EventLoop.schedule_later (possible_serveAs hanswered) _)

/-- Both requests reach the server. -/
def photoCalls (_ : ℕ) : UploadCall := ReceiptController.uploadCall 1 (uuidOf 0) photo

def photoPool : CallsPool ℕ := poolAfter platform staff True photoCalls [] retryActions

theorem photoPool_run : CallsRun platform staff True photoCalls [] photoPool := by
  apply callsRun_poolAfter
  simp [retryActions, goesOn, CallsAction.Permitted]

theorem photo_sent : SentUpload uploadPage (uuidOf 0) photo :=
  ⟨⟨2, 2, 0⟩, some ⟨[], []⟩, by decide +kernel⟩

theorem uploadPage_selectsOnce : SelectsOnce platform uploadPage.site.state := by
  have hkeys : uploadPage.site.state.ghost.keys = [(uuidOf 0, some photo)] := by decide +kernel
  intro drawn hdrawn drawn' hdrawn' _ _ _ _ _
  rw [hkeys, List.mem_singleton] at hdrawn hdrawn'
  rw [hdrawn, hdrawn']

end Sample

open Sample in
/-- The response to the first request is lost, and the page sends the upload again: the
second request finds what the first one has stored. -/
theorem photoPool_storesOnce :
    ∃ first second, photoPool.Ended 0 (.ok first) ∧ photoPool.Ended 1 (.ok second) ∧
      first.created = true ∧ second.idempotentReplay = true ∧
      second.receipt.id = first.receipt.id ∧
      (current staff photoPool.shared.trace).StoredOnce platform (photoCalls 0) (uuidOf 0)
        first.receipt.id := by
  obtain ⟨first, hfirst, hcreated⟩ := Pool.ended_of_returns
    (show photoPool.returns 0 (fun first => first.created) = true by decide +kernel)
  obtain ⟨second, hsecond, hreplay⟩ := Pool.ended_of_returns
    (show photoPool.returns 1 (fun second => second.idempotentReplay) = true by decide +kernel)
  obtain ⟨hstored, hsame⟩ := page_uploads_stored_once answered_identified drawsKeys_uuidOf
    uploadPage_run uploadPage_selectsOnce (fun _ => ⟨uuidOf 0, photo, 1, photo_sent, rfl⟩) .nil
    photoPool_run rfl (by decide +kernel) (by decide +kernel) hfirst .refl
  exact ⟨first, second, hfirst, hsecond, hcreated, hreplay, hsame 1 second rfl hsecond, hstored⟩

end ReceiptReview
