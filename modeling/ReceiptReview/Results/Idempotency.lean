import ReceiptReview.Lifecycle.Uploads
import ReceiptReview.System.Replay

/-!
# Idempotency keys and images

What a successful upload acknowledges.  A call that is answered by its key gets
the receipt to which the key is bound, whatever image it submits; every other
call gets the receipt of its image.  So the image that is acknowledged is the
submitted one as long as the key is not bound to another image
(`image_returned_iff`), and two keys that the collation of the schema does not
distinguish are one key (`replayed_first_iff`).
-/

namespace ReceiptReview

open Java Store ReceiptCase

variable {P : Platform} {employees : Table Employee} {call : UploadCall}
variable {trace start : List Commit} {s : UploadState} {result : UploadResult}

/-! ## The returned receipt -/

theorem Database.BoundTo.unique {db : Database} {a b : Receipt} (ha : db.BoundTo P call a)
    (hb : db.BoundTo P call b) : a = b := by
  obtain ⟨key, record, hkey, hrecord, hreceipt⟩ := ha
  obtain ⟨key', record', hkey', hrecord', hreceipt'⟩ := hb
  rw [hkey] at hkey'
  cases hkey'
  rw [hrecord] at hrecord'
  cases hrecord'
  rw [hreceipt] at hreceipt'
  exact Option.some.inj hreceipt'

/-- A returned receipt that is the stored receipt of the submitted image. -/
structure Acknowledges (P : Platform) (employees : Table Employee) (call : UploadCall)
    (trace : List Commit) (receipt : Receipt) : Prop where
  image : receipt.imageSha256 = P.sha256 call.bytes
  stored : ∃ stored, (current employees trace).receiptRow receipt.id = some stored ∧
    P.textEq stored.companyId call.companyId = true ∧
    stored.imageSha256 = P.sha256 call.bytes

theorem Duplicate.acknowledges (h : Duplicate P employees call start s result) :
    Acknowledges P employees call s.trace result.receipt := by
  obtain ⟨moment, receipt, hsince, hupto, himage, -, hid, hsha⟩ := h.found
  obtain ⟨hfound, hcompany, hmatches⟩ := findByCompanyIdAndImageSha256_eq_some himage
  obtain ⟨row, hstored, rfl⟩ := Database.findReceipt_eq_some.mp hfound
  have hdigest := (h.pending.run.suffix hupto).imageSha256_of_textEq hstored hmatches
  obtain ⟨receipt', hreceipt', hsame⟩ := h.pending.run.stored_later hupto hstored
  refine ⟨hsha.trans hdigest, receipt', hid ▸ hreceipt', ?_, ?_⟩
  · rw [hsame.companyId]
    exact hcompany
  · rw [hsame.imageSha256, hdigest]

theorem Created.acknowledges (h : Created P employees call start s result) :
    Acknowledges P employees call s.trace result.receipt := by
  obtain ⟨new, recordedAt, hmem, -, hreceipt, hcompany, hdigest, -⟩ := h.intake
  obtain ⟨stored, hstored, hsame⟩ := h.run.catalogued.stored new hmem
  rw [hreceipt]
  refine ⟨hdigest, stored, hstored, ?_, hsame.imageSha256.trans hdigest⟩
  rw [hsame.companyId, hcompany]
  simp [Platform.textEq]

theorem Acknowledges.later {receipt : Receipt} {trace' : List Commit}
    (hrun : Run P employees trace') (hsuffix : trace <:+ trace')
    (h : Acknowledges P employees call trace receipt) :
    Acknowledges P employees call trace' receipt := by
  obtain ⟨stored, hstored, hcompany, hdigest⟩ := h.stored
  obtain ⟨stored', hstored', hsame⟩ := hrun.stored_later hsuffix hstored
  exact ⟨h.image, stored', hstored', hsame.companyId ▸ hcompany, hsame.imageSha256.trans hdigest⟩

/-- A receipt is the stored receipt of one image only. -/
theorem Acknowledges.eq_of_id {other : UploadCall} {receipt receipt' : Receipt}
    (h : Acknowledges P employees call trace receipt)
    (h' : Acknowledges P employees other trace receipt') (hid : receipt.id = receipt'.id) :
    P.sha256 call.bytes = P.sha256 other.bytes := by
  obtain ⟨stored, hstored, -, hdigest⟩ := h.stored
  obtain ⟨stored', hstored', -, hdigest'⟩ := h'.stored
  rw [hid, hstored'] at hstored
  cases hstored
  exact hdigest.symm.trans hdigest'

/-! ## The acknowledged image -/

/-- The key of the call is bound to a receipt of the caller with another image. -/
def Database.BoundToOtherImage (P : Platform) (db : Database) (call : UploadCall) : Prop :=
  ∃ receipt, db.BoundTo P call receipt ∧ receipt.ownerEmployeeId = call.ownerId ∧
    receipt.imageSha256 ≠ P.sha256 call.bytes

theorem Database.NotReplayed.not_boundToOtherImage {db : Database} (h : db.NotReplayed P call) :
    ¬ db.BoundToOtherImage P call :=
  fun ⟨receipt, hbound, howner, _⟩ => h receipt hbound howner

/-- In any interleaving with the rest of the system, a successful upload returns
a receipt of the submitted image if and only if in none of its lookups the key
was bound to a receipt of the caller with another image. -/
theorem image_returned_iff (hrun : Run P employees trace)
    (hupload : Uploads P employees trace call (.ok result) s) :
    result.receipt.imageSha256 = P.sha256 call.bytes ↔
      ∀ db ∈ s.keyLookups, ¬ db.BoundToOtherImage P call := by
  rcases hupload.accepted hrun with h | h | h
  · obtain ⟨moment, receipt, earlier, -, -, hbound, hsame, howner, hlookups, hnot⟩ := h.found
    rw [hlookups, List.forall_mem_cons]
    constructor
    · -- the last lookup of a replay is the one that has found the key
      intro himage
      refine ⟨?_, fun db hdb => (hnot db hdb).not_boundToOtherImage⟩
      intro hother
      obtain ⟨receipt', hbound', -, hother⟩ := hother
      obtain rfl := hbound.unique hbound'
      exact hother (hsame.imageSha256.symm.trans himage)
    · intro hnow
      obtain ⟨hnow, -⟩ := hnow
      by_contra hother
      refine hnow ⟨receipt, hbound, howner, ?_⟩
      rwa [← hsame.imageSha256]
  · exact iff_of_true h.acknowledges.image
      fun db hdb => (h.pending.lookups db hdb).not_boundToOtherImage
  · exact iff_of_true h.acknowledges.image
      fun db hdb => (h.lookups db hdb).not_boundToOtherImage

namespace Sample

/-- The first image was submitted under the first key. -/
def submittedA : UploadState := (runUpload platform staff [] (uploadOf "key-1" imageA)).2

theorem submittedA_run : Run platform staff submittedA.trace := by
  have hupload : Uploads platform staff [] (uploadOf "key-1" imageA) _ submittedA :=
    uploads_runUpload rfl
  exact (hupload.run .nil).1

end Sample

open Sample in
/-- Another image under the same key is acknowledged with the receipt of the first. -/
theorem submittedA_discards :
    ∃ result s, Uploads platform staff submittedA.trace (uploadOf "key-1" imageB) (.ok result) s ∧
      result.receipt.imageSha256 ≠ platform.sha256 imageB :=
  ⟨_, _, uploads_runUpload rfl, by decide +kernel⟩

open Sample in
/-- Another image under another key is not. -/
theorem submittedA_acknowledges :
    ∃ result s, Uploads platform staff submittedA.trace (uploadOf "key-2" imageB) (.ok result) s ∧
      result.receipt.imageSha256 = platform.sha256 imageB := by
  obtain ⟨result, hresult⟩ : ∃ result,
      (runUpload platform staff submittedA.trace (uploadOf "key-2" imageB)).1 = .ok result :=
    ⟨_, rfl⟩
  have hupload := uploads_runUpload hresult
  refine ⟨result, _, hupload, (image_returned_iff submittedA_run hupload).mpr fun db hdb => ?_⟩
  have hunbound : ∀ db ∈ (runUpload platform staff submittedA.trace
      (uploadOf "key-2" imageB)).2.keyLookups,
      db.findByCompanyIdAndIdempotencyKey platform company (.ofString "key-2") = none := by
    decide +kernel
  exact (ReceiptUploadService.notReplayed_of_unbound rfl (hunbound db hdb)).not_boundToOtherImage

/-! ## Keys that compare equal -/

/-- A call whose key is bound when it starts returns the receipt of the record. -/
theorem Accepted.id_of_bound (h : Accepted P employees call start s result) {key : JString}
    {record : IdempotencyRecord}
    (hkey : ReceiptUploadService.normalize call.idempotencyKey = some key)
    (hrecord : (current employees start).findByCompanyIdAndIdempotencyKey P call.companyId key =
      some record) : result.receipt.id = record.receiptId := by
  have hbound : ¬ (current employees start).Unbound P call := by
    intro hunbound
    rw [hunbound key hkey] at hrecord
    exact absurd hrecord (by simp)
  rcases h with h | h | h
  · obtain ⟨moment, receipt, _, hsince, hupto, ⟨key', record', hkey', hrecord', hreceipt⟩,
      hsame, -⟩ := h.found
    have hlater := (h.run.suffix hupto).bound_later hsince hrecord
    rw [hkey] at hkey'
    cases hkey'
    rw [hlater] at hrecord'
    cases hrecord'
    rw [hsame.id, Database.id_of_receiptRow hreceipt]
  · exact absurd h.unbound hbound
  · exact absurd h.unbound hbound

theorem Accepted.acknowledges_of_created (h : Accepted P employees call start s result)
    (hcreated : result.created = true) : Acknowledges P employees call s.trace result.receipt := by
  rcases h with h | h | h
  · exact absurd (h.created.symm.trans hcreated) (by simp)
  · exact h.acknowledges
  · exact h.acknowledges

/-- The receipt of a created result comes with a record of its key, unless the key is blank. -/
theorem Accepted.intake_of_created (h : Accepted P employees call start s result)
    (hcreated : result.created = true) {key : JString}
    (hkey : ReceiptUploadService.normalize call.idempotencyKey = some key) :
    ∃ new ∈ creations s.trace, new.receipt.id = result.receipt.id ∧ ∃ recordedAt,
      new.record = if key.isBlank then none else
        some { companyId := call.companyId, idempotencyKey := key,
               receiptId := result.receipt.id, createdAt := recordedAt } := by
  rcases h with h | h | h
  · exact absurd (h.created.symm.trans hcreated) (by simp)
  · exact absurd (h.created.symm.trans hcreated) (by simp)
  · obtain ⟨new, recordedAt, hmem, -, hreceipt, -, -, -, hrecord⟩ := h.intake
    refine ⟨new, hmem, by rw [hreceipt], recordedAt, ?_⟩
    rw [hrecord, hkey, hreceipt]
    by_cases hblank : key.isBlank = true <;> simp [hblank]

/-- The key of the first call is recorded, and it compares equal to the key of the second. -/
def SameKey (P : Platform) (key key' : JString) : Prop :=
  key.isBlank = false ∧ P.textEq key key' = true

variable {first second : UploadCall} {start₁ start₂ later : List Commit} {s₁ s₂ : UploadState}
variable {created returned : UploadResult} {key key' : JString}

/-- Only a replay under a key that compares equal returns the receipt of another image. -/
theorem sameKey_of_replayed (hlater : Run P employees later)
    (hfirst : Accepted P employees first start₁ s₁ created) (hcreated : created.created = true)
    (hupto₁ : s₁.trace <:+ later)
    (hsecond : Accepted P employees second start₂ s₂ returned) (hupto₂ : s₂.trace <:+ later)
    (hkey : ReceiptUploadService.normalize first.idempotencyKey = some key)
    (hkey' : ReceiptUploadService.normalize second.idempotencyKey = some key')
    (himages : P.sha256 first.bytes ≠ P.sha256 second.bytes)
    (hid : returned.receipt.id = created.receipt.id) : SameKey P key key' := by
  obtain ⟨new, hmem, hnew, recordedAt, hrecord⟩ := hfirst.intake_of_created hcreated hkey
  have hnewLater := (creations_suffix hupto₁).subset hmem
  have hfirst' := (hfirst.acknowledges_of_created hcreated).later hlater hupto₁
  rcases hsecond with h | h | h
  · obtain ⟨moment, receipt, _, -, hupto, ⟨_, record, hnormalize, hbound, hreceipt⟩, hsame, -⟩ :=
      h.found
    rw [hkey'] at hnormalize
    cases hnormalize
    obtain ⟨new', hmem', hrecord', hid'⟩ :=
      hlater.intake_of_record (hlater.bound_later (hupto.trans hupto₂) hbound)
    -- the record is that of the first call, since receipts have one intake
    have hsameId : new'.receipt.id = new.receipt.id := by
      rw [hnew, ← hid, hsame.id, Database.id_of_receiptRow hreceipt, hid']
    obtain rfl := List.inj_on_of_nodup_map hlater.catalogued.nodup hmem' hnewLater hsameId
    rw [hrecord] at hrecord'
    obtain ⟨-, -, hmatches⟩ := findByCompanyIdAndIdempotencyKey_eq_some hbound
    split at hrecord'
    · exact absurd hrecord' (by simp)
    · rename_i hblank
      cases hrecord'
      exact ⟨by simpa using hblank, hmatches⟩
  · exact absurd (hfirst'.eq_of_id (h.acknowledges.later hlater hupto₂) hid.symm) himages
  · exact absurd (hfirst'.eq_of_id (h.acknowledges.later hlater hupto₂) hid.symm) himages

/-- Two calls of one company, under different keys and with different images: the
second does not return the receipt that the first creates unless the collation
takes the keys for the same and the first is recorded.  Then it does, if the
first call is over when the second starts. -/
theorem replayed_first_iff (hlater : Run P employees later)
    (hrun₁ : Run P employees start₁) (hfirst : Uploads P employees start₁ first (.ok created) s₁)
    (hcreated : created.created = true) (hupto₁ : s₁.trace <:+ later)
    (hrun₂ : Run P employees start₂) (hsecond : Uploads P employees start₂ second (.ok returned) s₂)
    (hupto₂ : s₂.trace <:+ later) (hcompany : first.companyId = second.companyId)
    (hkey : ReceiptUploadService.normalize first.idempotencyKey = some key)
    (hkey' : ReceiptUploadService.normalize second.idempotencyKey = some key')
    (himages : P.sha256 first.bytes ≠ P.sha256 second.bytes) :
    (¬ SameKey P key key' → returned.receipt.id ≠ created.receipt.id) ∧
      (s₁.trace <:+ start₂ →
        (returned.receipt.id ≠ created.receipt.id ↔ ¬ SameKey P key key')) := by
  have hfirst := hfirst.accepted hrun₁
  have hsecond := hsecond.accepted hrun₂
  have hseparates : ¬ SameKey P key key' → returned.receipt.id ≠ created.receipt.id :=
    mt (sameKey_of_replayed hlater hfirst hcreated hupto₁ hsecond hupto₂ hkey hkey' himages)
  refine ⟨hseparates, fun hover => ⟨fun hother hsame => hother ?_, hseparates⟩⟩
  obtain ⟨new, hmem, -, recordedAt, hrecord⟩ := hfirst.intake_of_created hcreated hkey
  rw [if_neg (by simp [hsame.1])] at hrecord
  have hbound := hrun₂.bound_of_intake ((creations_suffix hover).subset hmem) hrecord
    (show P.textEq first.companyId second.companyId = true by rw [hcompany]; simp [Platform.textEq])
    hsame.2
  exact hsecond.id_of_bound hkey' hbound

open Sample in
/-- Keys that differ in case are different strings, and one key. -/
theorem submittedA_foldsKeys :
    ReceiptUploadService.normalize (some (.ofString "key-1")) ≠
        ReceiptUploadService.normalize (some (.ofString "KEY-1")) ∧
      platform.sha256 imageA ≠ platform.sha256 imageB ∧
      ∃ created returned s,
        Uploads platform staff [] (uploadOf "key-1" imageA) (.ok created) submittedA ∧
        created.created = true ∧
        Uploads platform staff submittedA.trace (uploadOf "KEY-1" imageB) (.ok returned) s ∧
        returned.receipt.id = created.receipt.id :=
  ⟨by decide, by decide, _, _, _, uploads_runUpload rfl, by decide +kernel, uploads_runUpload rfl,
    by decide +kernel⟩

open Sample in
/-- Keys that differ in a digit are two keys. -/
theorem submittedA_separatesKeys :
    ∃ created returned s,
      Uploads platform staff [] (uploadOf "key-1" imageA) (.ok created) submittedA ∧
      Uploads platform staff submittedA.trace (uploadOf "key-2" imageB) (.ok returned) s ∧
      returned.receipt.id ≠ created.receipt.id := by
  obtain ⟨created, hcreated⟩ : ∃ created,
      (runUpload platform staff [] (uploadOf "key-1" imageA)).1 = .ok created := ⟨_, rfl⟩
  obtain ⟨returned, hreturned⟩ : ∃ returned,
      (runUpload platform staff submittedA.trace (uploadOf "key-2" imageB)).1 = .ok returned :=
    ⟨_, rfl⟩
  have hfirst := uploads_runUpload hcreated
  have hsecond := uploads_runUpload hreturned
  have hnew : created.created = true := by
    cases hcreated
    rfl
  have hkeys : ¬ SameKey platform (.ofString "key-1") (.ofString "key-2") := by
    simp only [SameKey]
    decide
  obtain ⟨hlater, hsuffix⟩ := hsecond.run submittedA_run
  have hdistinct := replayed_first_iff hlater .nil hfirst hnew hsuffix submittedA_run hsecond
    List.suffix_rfl rfl rfl rfl (by decide) |>.1 hkeys
  exact ⟨created, returned, _, hfirst, hsecond, hdistinct⟩

end ReceiptReview
