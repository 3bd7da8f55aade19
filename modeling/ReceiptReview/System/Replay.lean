import Mathlib.Data.List.Basic
import ReceiptReview.System.Operation

/-!
# Replaying operations

A sequence of operations, each reading the database as it is, gives a run when
every commit succeeds (`run_of_replay`).  So a run is exhibited by evaluating
the operations one after the other.

The platform of such a run has the digests of two small images and a collation
that folds the case of ASCII letters, as the collation of the schema does.
-/

namespace ReceiptReview

open Java Store

variable {P : Platform} {employees : Table Employee}

/-- Commit one operation that reads the current database. -/
def step? (P : Platform) (employees : Table Employee) (trace : List Commit)
    (operation : Operation) : Option (List Commit) :=
  let before := current employees trace
  match operation.body before with
  | .error _ => none
  | .ok (reply, changes) =>
      match before.commit P changes with
      | .error _ => none
      | .ok after => some ({ operation, reply, changes, before, after } :: trace)

/-- Commit operations one after the other. -/
def replay (P : Platform) (employees : Table Employee) :
    List Commit → List Operation → Option (List Commit)
  | trace, [] => some trace
  | trace, operation :: operations =>
      match step? P employees trace operation with
      | none => none
      | some trace => replay P employees trace operations

theorem run_of_step? {trace trace' : List Commit} {operation : Operation}
    (hrun : Run P employees trace) (hpermitted : operation.Permitted P employees)
    (h : step? P employees trace operation = some trace') : Run P employees trace' := by
  unfold step? at h
  simp only at h
  split at h
  · exact absurd h (by simp)
  · rename_i reply changes hbody
    split at h
    · exact absurd h (by simp)
    · rename_i after hcommit
      cases h
      exact .commit hrun hpermitted (current_mem_snapshots _ _) hbody hcommit

theorem run_of_replay (operations : List Operation) :
    ∀ {trace trace' : List Commit}, Run P employees trace →
      (∀ operation ∈ operations, operation.Permitted P employees) →
      replay P employees trace operations = some trace' → Run P employees trace' := by
  induction operations with
  | nil =>
      intro trace trace' hrun _ h
      cases h
      exact hrun
  | cons operation operations ih =>
      intro trace trace' hrun hpermitted h
      unfold replay at h
      split at h
      · exact absurd h (by simp)
      · rename_i next hstep
        exact ih (run_of_step? hrun (hpermitted _ (by simp)) hstep)
          (fun other hother => hpermitted other (by simp [hother])) h

/-! ## A platform for small images -/

namespace Sample

/-- A lower-case hexadecimal digit. -/
def hexDigit (n : ℕ) : UInt16 :=
  if n < 10 then (0x30 + n).toUInt16 else (0x61 + (n - 10)).toUInt16

/-- `HexFormat.of().formatHex`. -/
def formatHex (bytes : List UInt8) : JString :=
  bytes.flatMap fun byte => [hexDigit (byte.toNat / 16), hexDigit (byte.toNat % 16)]

/-- The header of a JPEG image and one more byte. -/
def imageA : List UInt8 := [0xFF, 0xD8, 0xFF, 0x01]

def imageB : List UInt8 := [0xFF, 0xD8, 0xFF, 0x02]

def sha256 (bytes : List UInt8) : JString :=
  if bytes = imageA then
    .ofString "2501302c0464719ae433103d7f70c01350d8dceee909f52197fe284905e20a96"
  else if bytes = imageB then
    .ofString "e5e81de05171c7a1cfcaf20763c22c006f68dd669ffc31ea1c903b9475af7665"
  else formatHex bytes

/-- Fold the case of an ASCII letter. -/
def foldCase (unit : UInt16) : UInt16 :=
  if 0x41 ≤ unit ∧ unit ≤ 0x5A then unit + 0x20 else unit

theorem foldCase_hexDigit : ∀ n < 16, foldCase (hexDigit n) = hexDigit n := by decide

theorem map_foldCase_sha256 (bytes : List UInt8) : (sha256 bytes).map foldCase = sha256 bytes := by
  unfold sha256
  split
  · decide
  · split
    · decide
    · rw [formatHex, List.map_flatMap]
      refine List.flatMap_congr fun byte _ => ?_
      have hbyte : byte.toNat < 256 := byte.toNat_lt
      simp [foldCase_hexDigit _ (show byte.toNat / 16 < 16 by omega),
        foldCase_hexDigit _ (Nat.mod_lt _ (by decide : 0 < 16))]

def platform : Platform where
  sha256 := sha256
  collate := List.map foldCase
  collate_sha256 a b h := by rwa [map_foldCase_sha256, map_foldCase_sha256] at h

/-- An account with a password. -/
def account (id : Long) (loginId : String) (role : EmployeeRole) : Employee where
  id := id
  version := 0
  sessionVersion := 0
  loginId := .ofString loginId
  passwordHash := some (.ofString "hash")
  role := role
  active := true

/-- An employee, a reviewer and an administrator. -/
def staff : Table Employee where
  rows := [account 1 "submitter" .employee, account 2 "reviewer" .reviewer,
    account 3 "admin" .admin]
  keys_nodup := by decide

/-- The session of an account whose request did not pass the filter. -/
def login (id : Long) (loginId : String) : Session where
  principal := some { employeeId := id, loginId := .ofString loginId, sessionVersion := 0 }
  requestEmployee := none

theorem login_loaded (id : Long) (loginId : String) : (login id loginId).Loaded staff := by
  simp [Session.Loaded, login]

/-- The company of all uploads over HTTP. -/
def company : JString := .ofString "internal"

/-- An upload of an image, under an idempotency key. -/
def uploadOf (idempotencyKey : String) (bytes : List UInt8) : UploadCall where
  companyId := company
  idempotencyKey := some (.ofString idempotencyKey)
  fileName := some (.ofString "receipt.jpg")
  contentType := none
  bytes := bytes
  ownerId := some 1

/-- The intake of an upload. -/
def intakeOf (call : UploadCall) (receiptId jobId : Long) (now : Instant) : Operation :=
  .createQueued
    (ReceiptUploadService.acceptedReceipt call.companyId (sha256 call.bytes) call.fileName
      (some (.ofString "image/jpeg")) call.bytes.length call.ownerId now)
    (.ofString "internal/image.jpg")
    (ReceiptUploadService.normalize call.idempotencyKey)
    [ReceiptUploadService.uploadedEvent (sha256 call.bytes) call.fileName
      (some (.ofString "image/jpeg")) call.bytes.length call.ownerId now]
    receiptId jobId now now

theorem intakeOf_permitted (call : UploadCall) (receiptId jobId : Long) (now : Instant) :
    (intakeOf call receiptId jobId now).Permitted platform staff :=
  ⟨call, some (.ofString "image/jpeg"), now, rfl, rfl, rfl⟩

/-- The worker `"worker"` claims the waiting jobs for ten nanoseconds. -/
def claimAll (now : Instant) (token : String) : Operation :=
  .claimAvailable (.ofString "worker") 10 10 now
    (fun id => .ofString (token ++ "-" ++ toString id)) []

/-- What the worker takes away when the job of the first intake is claimed first. -/
def firstClaim (now : Instant) (token : String) : ClaimedReceiptJob where
  jobId := 1
  receiptId := 1
  jobVersion := 1
  attemptCount := 1
  workerId := some (.ofString "worker")
  claimToken := some (.ofString (token ++ "-1"))
  leaseUntil := some (now + 10)
  imageStorageKey := .ofString "internal/image.jpg"
  contentType := some (.ofString "image/jpeg")
  fileName := some (.ofString "receipt.jpg")
  duplicateDetected := false

/-- Data on which every rule passes. -/
def goodData : ReceiptData :=
  .of (some (.ofString "Shop")) (some 0) (some ⟨1000, 0⟩) none none (some [])

/-- Nothing but a shop name that is blank only after it is trimmed. -/
def controlData : ReceiptData :=
  .of (some [1]) none none none none (some [])

/-- The fields of `goodData`, entered by hand. -/
def goodFields : FieldCorrections where
  shopName := goodData.shopName
  date := goodData.date
  totalAmount := goodData.totalAmount
  businessRegistrationNumber := none
  paymentMethod := none
  lineItems := none
  clearFields := []

end Sample

end ReceiptReview
