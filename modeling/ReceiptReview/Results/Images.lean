import ReceiptReview.Concurrent.Bucket
import ReceiptReview.Concurrent.Schedule
import ReceiptReview.Results.Evidence
import ReceiptReview.Service.Query

/-!
# Original images

Keys are content addresses: two images with one key have one digest
(`ReceiptImageKey.create_inj`), so no put changes what another one has stored.
The object of a receipt is there before its row, since a call creates its receipt
under the key that a successful put has returned (`Deposited`), and the key, the
digest and the content type of a stored receipt never change.

The format of an image is read off its bytes in three places, always from the same
bytes, so the content type that is served is the one that was stored.
-/

namespace ReceiptReview

open Java Store ReceiptCase UploadTranscript S3ReceiptImageStorage

variable {P : Platform} {employees : Table Employee} {ι : Type} {storage : S3ReceiptImageStorage}
variable {exclusive : Prop} {calls : ι → UploadCall} {bucket : Bucket}

/-! ## Content addresses -/

/-- Images with one key have one digest. -/
theorem ReceiptImageKey.create_inj (hdigits : ∀ bytes, (P.sha256 bytes).length = 64)
    {company company' : JString} {image image' : List UInt8} {format format' : ReceiptImageFormat}
    (h : create P company (P.sha256 image) format = create P company' (P.sha256 image') format') :
    P.sha256 image = P.sha256 image' := by
  have hcompany : ((P.sha256 company.getBytes).take 16 ++ JString.ofString "/").length =
      ((P.sha256 company'.getBytes).take 16 ++ JString.ofString "/").length := by
    simp [hdigits]
  have himage : (P.sha256 image).length = (P.sha256 image').length := by
    rw [hdigits, hdigits]
  have hparts : ∀ company image (format : ReceiptImageFormat),
      create P company (P.sha256 image) format =
        ((P.sha256 company.getBytes).take 16 ++ JString.ofString "/") ++
          (P.sha256 image ++ (JString.ofString "." ++ format.extension)) := by
    intro company image format
    simp [create, List.append_assoc]
  rw [hparts, hparts] at h
  exact (List.append_inj (List.append_inj h hcompany).2 himage).1

/-- The key under which the image of a call is stored. -/
def UploadCall.HasKey (P : Platform) (call : UploadCall) (storageKey : JString) : Prop :=
  S3ReceiptImageStorage.storageKey P call.companyId (P.sha256 call.bytes) call.bytes =
    .ok storageKey

theorem UploadCall.HasKey.format {call : UploadCall} {storageKey : JString}
    (h : call.HasKey P storageKey) : ∃ format, ReceiptImageFormat.detect call.bytes = .ok format ∧
      storageKey = ReceiptImageKey.create P call.companyId (P.sha256 call.bytes) format := by
  simp only [HasKey, S3ReceiptImageStorage.storageKey, Outcome.bind_eq_ok, Outcome.pure_eq_ok] at h
  obtain ⟨format, hformat, rfl⟩ := h
  exact ⟨format, hformat, rfl⟩

/-- No two images of the calls have one digest. -/
def CollisionFree (P : Platform) (calls : ι → UploadCall) : Prop :=
  ∀ i j, P.sha256 (calls i).bytes = P.sha256 (calls j).bytes → (calls i).bytes = (calls j).bytes

theorem CollisionFree.eq_of_key (hfree : CollisionFree P calls)
    (hdigits : ∀ bytes, (P.sha256 bytes).length = 64) {i j : ι} {storageKey : JString}
    (hi : (calls i).HasKey P storageKey) (hj : (calls j).HasKey P storageKey) :
    (calls i).bytes = (calls j).bytes := by
  obtain ⟨format, -, hkey⟩ := hi.format
  obtain ⟨format', -, hkey'⟩ := hj.format
  exact hfree i j (ReceiptImageKey.create_inj hdigits (hkey.symm.trans hkey'))

/-- A put of one call does not change the object of another one. -/
theorem put_keeps (hfree : CollisionFree P calls)
    (hdigits : ∀ bytes, (P.sha256 bytes).length = 64) {bucket : Bucket} {i j : ι}
    {mine theirs : JString} (hmine : (calls i).HasKey P mine) (htheirs : (calls j).HasKey P theirs)
    (hobject : bucket (storage.keyPrefix ++ mine) = some (calls i).bytes) :
    bucket.put (storage.keyPrefix ++ theirs) (calls j).bytes (storage.keyPrefix ++ mine) =
      some (calls i).bytes := by
  by_cases hkey : mine = theirs
  · subst hkey
    rw [Bucket.put_self, hfree.eq_of_key hdigits hmine htheirs]
  · rw [Bucket.put_of_ne _ _ (by simpa using hkey)]
    exact hobject

/-! ## Images in their places -/

variable {pool pool' : ImagesPool ι}

/-- The call has stored its image under this key. -/
def StoredUnder (P : Platform) (calls : ι → UploadCall) (pool : ImagesPool ι) (i : ι)
    (storageKey : JString) : Prop :=
  Answered (pool.past i) ((calls i).storing P) storageKey

/-- Puts carry the image of a call to its key, and the object of a call that has
stored its image is its image. -/
structure Deposited (P : Platform) (storage : S3ReceiptImageStorage) (calls : ι → UploadCall)
    (pool : ImagesPool ι) : Prop where
  sent : ∀ object ∈ pool.shared.objects.sent, ∃ i storageKey, (calls i).HasKey P storageKey ∧
    object = (storage.keyPrefix ++ storageKey, (calls i).bytes)
  stored : ∀ i storageKey, StoredUnder P calls pool i storageKey →
    (calls i).HasKey P storageKey ∧
      pool.shared.objects.bucket (storage.keyPrefix ++ storageKey) = some (calls i).bytes

theorem ReceiptCase.Step.imageStorageKey {operation : Operation} {x x' : ReceiptCase}
    {events : List AuditEvent} (h : Step employees operation x events x') :
    x'.job.imageStorageKey = x.job.imageStorageKey := by
  cases h with
  | claimed hclaim => rw [(ReceiptExtractionJob.claim_eq_ok hclaim).2]; rfl
  | released _ hrelease => rw [(ReceiptExtractionJob.releaseClaim_eq_ok hrelease).2]; rfl
  | recovered hrecover => rw [(ReceiptExtractionJob.recoverExpiredLease_eq_ok hrecover).2.2]; rfl
  | qualityRejected _ _ hcomplete | extracted _ _ hcomplete =>
      rw [(ReceiptExtractionJob.complete_eq_ok hcomplete).2]
      rfl
  | retryScheduled _ _ hretry => rw [(ReceiptExtractionJob.scheduleRetry_eq_ok hretry).2]; rfl
  | failed _ _ hfail => rw [(ReceiptExtractionJob.fail_eq_ok hfail).2]; rfl
  | duplicateDeferred | duplicateMarked | corrected | decided => rfl

/-- The case shows the image of the call, which the call has stored. -/
structure ShowsImage (P : Platform) (calls : ι → UploadCall) (pool : ImagesPool ι) (i : ι)
    (x : ReceiptCase) : Prop where
  stored : StoredUnder P calls pool i x.job.imageStorageKey
  digest : x.receipt.imageSha256 = P.sha256 (calls i).bytes
  format : ∃ format, ReceiptImageFormat.detect (calls i).bytes = .ok format ∧
    x.receipt.contentType = some format.contentType

theorem ShowsImage.moves {commit : Commit} {i : ι} {x x' : ReceiptCase}
    (hmoves : commit.Moves employees x x') (h : ShowsImage P calls pool i x) :
    ShowsImage P calls pool i x' := by
  rcases hmoves with ⟨rfl, -⟩ | hstep
  · exact h
  · obtain ⟨format, hformat, hcontentType⟩ := h.format
    refine ⟨?_, hstep.sameEvidence.imageSha256.trans h.digest, format, hformat,
      hstep.sameEvidence.contentType.trans hcontentType⟩
    rw [hstep.imageStorageKey]
    exact h.stored

/-- The transaction of a call creates a case that shows its image. -/
theorem ShowsImage.created {commit : Commit} {x : ReceiptCase} {i : ι} {exchange : UploadExchange}
    (hcreates : commit.Creates x) (hmade : commit.MadeBy exchange)
    (hallows : ImageAllows P (calls i) (pool.past i) exchange.request) :
    ShowsImage P calls pool i x := by
  obtain ⟨_, _, _, _, _, _, _, _, hoperation, rfl, -⟩ := hcreates
  rcases hmade.cases with ⟨_, _, _, _, _, _, rfl⟩ | ⟨_, _, rfl⟩
  · obtain ⟨⟨_, _, _, _, hmadeOf⟩, -⟩ := hmade
    cases hmadeOf.symm.trans hoperation
    obtain ⟨hstored, hdigest, hformat⟩ := hallows
    exact ⟨hstored, hdigest, hformat⟩
  · obtain ⟨⟨_, _, hmadeOf⟩, -⟩ := hmade
    exact absurd (hmadeOf.symm.trans hoperation) (by simp)

/-- The object of a case is the image that it shows. -/
theorem ShowsImage.object (hdeposited : Deposited P storage calls pool) {i : ι} {x : ReceiptCase}
    (h : ShowsImage P calls pool i x) :
    pool.shared.objects.bucket (storage.keyPrefix ++ x.job.imageStorageKey) =
      some (calls i).bytes :=
  (hdeposited.stored i _ h.stored).2

/-! ## The bucket -/

variable [DecidableEq ι]

theorem StoredUnder.step {rules : PoolRules ι (ImagesState ι) UploadRequest UploadRequest.Answer
    Failure UploadResult} (hstep : Pool.Step rules pool pool') {i : ι} {storageKey : JString}
    (h : StoredUnder P calls pool i storageKey) : StoredUnder P calls pool' i storageKey := by
  rcases hstep.past_cases with ⟨hsame, -⟩ | ⟨j, r, answer, next, -, -, hpast, hothers⟩
  · rwa [StoredUnder, hsame]
  · by_cases hij : i = j
    · subst hij
      rw [StoredUnder, hpast]
      exact h.cons
    · rwa [StoredUnder, hothers i hij]

/-- What a step does to the bucket: nothing; a put takes effect; a call sends the
put of its image, and is told nothing or that it has taken effect. -/
inductive ObjectsStep (P : Platform) (storage : S3ReceiptImageStorage) (calls : ι → UploadCall)
    (pool pool' : ImagesPool ι) : Prop
  | quiet : pool'.shared.objects = pool.shared.objects →
      (∀ i storageKey, StoredUnder P calls pool' i storageKey →
        StoredUnder P calls pool i storageKey) → ObjectsStep P storage calls pool pool'
  | lands : pool.shared.objects.Lands pool'.shared.objects →
      (∀ i storageKey, StoredUnder P calls pool' i storageKey →
        StoredUnder P calls pool i storageKey) → ObjectsStep P storage calls pool pool'
  | sends (i : ι) (storageKey : JString) : (calls i).HasKey P storageKey →
      pool'.shared.objects =
        pool.shared.objects.send (storage.keyPrefix ++ storageKey) (calls i).bytes →
      (∀ i storageKey, StoredUnder P calls pool' i storageKey →
        StoredUnder P calls pool i storageKey) → ObjectsStep P storage calls pool pool'
  | stores (i : ι) (storageKey : JString) : (calls i).HasKey P storageKey →
      pool'.shared.objects =
        (pool.shared.objects.send (storage.keyPrefix ++ storageKey) (calls i).bytes).land
          (storage.keyPrefix ++ storageKey) (calls i).bytes →
      (∀ j other, StoredUnder P calls pool' j other →
        StoredUnder P calls pool j other ∨ j = i ∧ other = storageKey) →
      ObjectsStep P storage calls pool pool'

theorem ImagesRun.objects_cases
    (h : ImagesRun P employees storage exclusive calls bucket pool)
    (hstep : Pool.Step (imagesRules P employees storage exclusive calls) pool pool') :
    ObjectsStep P storage calls pool pool' := by
  rcases hstep.past_cases with
    ⟨hsame, hquiet⟩ | ⟨i, request, answer, next, hthread, hserves, hpast, hothers⟩
  · have hkept : ∀ i storageKey, StoredUnder P calls pool' i storageKey →
        StoredUnder P calls pool i storageKey := by
      intro i storageKey hstored
      rwa [StoredUnder, ← hsame]
    rcases hquiet with (⟨-, hobjects⟩ | ⟨-, hlands⟩) | ⟨i, hstarts | hdies⟩
    · exact .quiet hobjects hkept
    · exact .lands hlands hkept
    · exact .quiet (congrArg ImagesState.objects hstarts) hkept
    · exact .quiet hdies.2 hkept
  · -- what has been stored before, or is stored by this exchange
    have hnew : ∀ j storageKey, StoredUnder P calls pool' j storageKey →
        StoredUnder P calls pool j storageKey ∨ j = i ∧
          (⟨(calls i).storing P, .ok storageKey⟩ : UploadExchange) = ⟨request, answer⟩ := by
      intro j storageKey hstored
      by_cases hij : j = i
      · subst hij
        simp only [StoredUnder, Answered, hpast, List.mem_cons] at hstored
        exact hstored.symm.imp_right fun heq => ⟨rfl, heq⟩
      · rw [StoredUnder, hothers j hij] at hstored
        exact .inl hstored
    -- an exchange that stores no image
    have hkept : (∀ storageKey, (⟨(calls i).storing P, .ok storageKey⟩ : UploadExchange) ≠
          ⟨request, answer⟩) →
        ∀ j storageKey, StoredUnder P calls pool' j storageKey →
          StoredUnder P calls pool j storageKey := by
      intro hnot j storageKey hstored
      exact (hnew j storageKey hstored).resolve_right fun h => hnot storageKey h.2
    have hallowed := h.allowed hthread
    obtain ⟨-, hobjects⟩ := hserves
    cases request with
    | store companyId imageSha256 bytes =>
        obtain ⟨rfl, rfl, rfl⟩ := hallowed
        simp only [Objects.Serves, Objects.Stores] at hobjects
        split at hobjects
        · obtain ⟨rfl, hsame⟩ := hobjects
          exact .quiet hsame (hkept (by simp [UploadCall.storing]))
        · rename_i storageKey hkey
          rcases hobjects with ⟨rfl, hlanded⟩ | ⟨⟨e, rfl⟩, hsame | hsent⟩
          · refine .stores i storageKey hkey hlanded fun j other hstored => ?_
            refine (hnew j other hstored).imp_right fun ⟨hij, heq⟩ => ⟨hij, ?_⟩
            simpa [UploadCall.storing] using heq
          · exact .quiet hsame (hkept (by simp [UploadCall.storing]))
          · exact .sends i storageKey hkey hsent (hkept (by simp [UploadCall.storing]))
    | findByCompanyIdAndIdempotencyKey | findByCompanyIdAndImageSha256 | findReceiptById
    | findJobByReceiptId | tryLock | unlock | now | createQueued | markDuplicate =>
        exact .quiet hobjects (hkept (by simp [UploadCall.storing]))

/-- One step keeps the images in their places. -/
theorem Deposited.step (hfree : CollisionFree P calls)
    (hdigits : ∀ bytes, (P.sha256 bytes).length = 64)
    (hrun : ImagesRun P employees storage exclusive calls bucket pool)
    (hstep : Pool.Step (imagesRules P employees storage exclusive calls) pool pool')
    (h : Deposited P storage calls pool) : Deposited P storage calls pool' := by
  cases hrun.objects_cases hstep with
  | quiet hobjects hkept =>
      constructor
      · rw [hobjects]
        exact h.sent
      · intro i storageKey hstored
        rw [hobjects]
        exact h.stored i storageKey (hkept i storageKey hstored)
  | lands hlands hkept =>
      -- an upload that was sent before arrives, possibly after later ones
      obtain ⟨object, hmem, hobjects⟩ := hlands
      obtain ⟨j, theirs, htheirs, rfl⟩ := h.sent object hmem
      constructor
      · rw [hobjects]
        exact h.sent
      · intro i storageKey hstored
        obtain ⟨hkey, hobject⟩ := h.stored i storageKey (hkept i storageKey hstored)
        rw [hobjects]
        exact ⟨hkey, put_keeps hfree hdigits hkey htheirs hobject⟩
  | sends j theirs htheirs hobjects hkept =>
      -- the upload has failed for its caller but may still arrive
      constructor
      · rw [hobjects]
        exact List.forall_mem_cons.mpr ⟨⟨j, theirs, htheirs, rfl⟩, h.sent⟩
      · intro i storageKey hstored
        rw [hobjects]
        exact h.stored i storageKey (hkept i storageKey hstored)
  | stores j theirs htheirs hobjects hnew =>
      constructor
      · rw [hobjects]
        exact List.forall_mem_cons.mpr ⟨⟨j, theirs, htheirs, rfl⟩, h.sent⟩
      · intro i storageKey hstored
        rw [hobjects]
        rcases hnew i storageKey hstored with hbefore | ⟨rfl, rfl⟩
        · -- the object that replaces another one under its key has the same bytes
          obtain ⟨hkey, hobject⟩ := h.stored i storageKey hbefore
          exact ⟨hkey, put_keeps hfree hdigits hkey htheirs hobject⟩
        · exact ⟨htheirs, Bucket.put_self ..⟩

/-- In every reachable pool the images are in their places. -/
theorem ImagesRun.deposited (hfree : CollisionFree P calls)
    (hdigits : ∀ bytes, (P.sha256 bytes).length = 64)
    (h : ImagesRun P employees storage exclusive calls bucket pool) :
    Deposited P storage calls pool := by
  induction h with
  | initial =>
      refine ⟨fun object hmem => absurd hmem List.not_mem_nil, fun i storageKey hstored => ?_⟩
      exact absurd hstored List.not_mem_nil
  | step hrun hstep ih => exact ih.step hfree hdigits hrun hstep

/-! ## The receipts -/

theorem ShowsImage.step {rules : PoolRules ι (ImagesState ι) UploadRequest UploadRequest.Answer
    Failure UploadResult} (hstep : Pool.Step rules pool pool') {i : ι} {x : ReceiptCase}
    (h : ShowsImage P calls pool i x) : ShowsImage P calls pool' i x :=
  ⟨h.stored.step hstep, h.digest, h.format⟩

/-- Every stored case shows the image of a call. -/
theorem ImagesRun.showsImage (h : ImagesRun P employees storage exclusive calls bucket pool)
    {x : ReceiptCase} (hx : (current employees (imagesTrace pool)).HasCase x) :
    ∃ i, ShowsImage P calls pool i x := by
  induction h generalizing x with
  | initial =>
      exact absurd hx.receipt (by
        simp [imagesTrace, Pool.initial, current, Database.initial, Database.receiptRow])
  | @step pool pool' hrun hstep ih =>
      have hlater : Run P employees (imagesTrace pool') :=
        ImagesRun.run (.step hrun hstep)
      rcases ImagesRun.trace_cases hrun hstep with hsame | ⟨commit, htrace, hauthor⟩
      · rw [hsame] at hx
        obtain ⟨i, hshows⟩ := ih hx
        exact ⟨i, hshows.step hstep⟩
      · rw [htrace] at hx hlater
        rcases hlater.created_or_moved hx with hcreates | ⟨y, hy, hmoves⟩
        · rcases hauthor with hintake | ⟨i, exchange, hallows, hmade⟩
          · -- only a call creates a receipt
            obtain ⟨_, _, _, _, _, _, _, _, hoperation, -⟩ := hcreates
            rw [hoperation] at hintake
            exact absurd hintake (by simp [Operation.isIntake])
          · exact ⟨i, (ShowsImage.created hcreates hmade hallows).step hstep⟩
        · obtain ⟨i, hshows⟩ := ih hy
          exact ⟨i, (hshows.step hstep).moves hmoves⟩

theorem ShowsImage.later {rules : PoolRules ι (ImagesState ι) UploadRequest UploadRequest.Answer
    Failure UploadResult} (hlater : Relation.ReflTransGen (Pool.Step rules) pool pool') {i : ι}
    {x : ReceiptCase} (h : ShowsImage P calls pool i x) : ShowsImage P calls pool' i x := by
  induction hlater with
  | refl => exact h
  | tail _ hstep ih => exact ih.step hstep

/-- The image of a receipt is served to those who may read the receipt. -/
theorem getOriginalImage_eq {db : Database} {session : Session} {id : Long}
    {job : ReceiptExtractionJob} {bytes : List UInt8} {format : ReceiptImageFormat}
    (hjob : db.findJobByReceiptId id = some job)
    (hobject : bucket (storage.keyPrefix ++ job.imageStorageKey) = some bytes)
    (hformat : ReceiptImageFormat.detect bytes = .ok format) :
    ReceiptImageService.getOriginalImage (storage.load bucket) db session id =
      (ReceiptQueryService.getReceipt db session id).map
        fun _ => ⟨bytes, format.contentType⟩ := by
  unfold ReceiptImageService.getOriginalImage ReceiptQueryService.getExtractionJob
  cases ReceiptQueryService.getReceipt db session id with
  | error e => rfl
  | ok receipt =>
      have hload : storage.load bucket job.imageStorageKey = .ok bytes := by
        rw [load, hobject]
        rfl
      rw [hjob]
      show (storage.load bucket job.imageStorageKey >>= _) = _
      simp only [hload, hformat, bind, Except.bind]
      rfl

/-- However uploads interleave: the object of a stored receipt is there, its digest
is that of the receipt, no later step changes it, and those who may read the receipt
are served these bytes with the stored content type, also if the object is loaded
after the job has been read. -/
theorem images_intact (hdigits : ∀ bytes, (P.sha256 bytes).length = 64)
    (hfree : CollisionFree P calls)
    (h : ImagesRun P employees storage exclusive calls bucket pool) {id : Long} {receipt : Receipt}
    (hreceipt : (current employees (imagesTrace pool)).receiptRow id = some receipt) :
    ∃ job bytes contentType,
      (current employees (imagesTrace pool)).findJobByReceiptId id = some job ∧
      P.sha256 bytes = receipt.imageSha256 ∧ receipt.contentType = some contentType ∧
      ∀ pool', Relation.ReflTransGen
          (Pool.Step (imagesRules P employees storage exclusive calls)) pool pool' →
        pool'.shared.objects.bucket (storage.keyPrefix ++ job.imageStorageKey) = some bytes ∧
        ∀ session, ReceiptImageService.getOriginalImage
            (storage.load pool'.shared.objects.bucket) (current employees (imagesTrace pool))
            session id =
          (ReceiptQueryService.getReceipt (current employees (imagesTrace pool)) session id).map
            fun _ => ⟨bytes, contentType⟩ := by
  have hpaired := h.run.current_refines.paired
  obtain ⟨x, hx, rfl⟩ := hpaired.of_receipt hreceipt
  obtain ⟨i, hshows⟩ := h.showsImage hx
  obtain ⟨format, hformat, hcontentType⟩ := hshows.format
  have hjob : (current employees (imagesTrace pool)).findJobByReceiptId id = some x.job :=
    Database.id_of_receiptRow hreceipt ▸ hpaired.findJobByReceiptId hx
  refine ⟨x.job, (calls i).bytes, format.contentType, hjob, hshows.digest.symm, hcontentType,
    fun pool' hlater => ?_⟩
  have hrun' : ImagesRun P employees storage exclusive calls bucket pool' :=
    Pool.Run.later h hlater
  have hobject := (hshows.later hlater).object (hrun'.deposited hfree hdigits)
  exact ⟨hobject, fun session => getOriginalImage_eq hjob hobject hformat⟩

namespace Sample

/-- The digests of the sample, all of 64 digits. -/
def digest (bytes : List UInt8) : JString :=
  if bytes = company.getBytes then
    .ofString "3bed2cb3a3acf7b6a8ef408420cc682d5520e26976d354254f528c965612054f"
  else (sha256 bytes ++ List.replicate 64 0x30).take 64

theorem length_digest (bytes : List UInt8) : (digest bytes).length = 64 := by
  unfold digest
  split
  · decide
  · rw [List.length_take, List.length_append, List.length_replicate]
    omega

theorem map_foldCase_digest (bytes : List UInt8) : (digest bytes).map foldCase = digest bytes := by
  unfold digest
  split
  · decide
  · rw [List.map_take, List.map_append, map_foldCase_sha256]
    rfl

def imagePlatform : Platform where
  sha256 := digest
  collate := List.map foldCase
  collate_sha256 a b h := by rwa [map_foldCase_digest, map_foldCase_digest] at h

/-- Two uploads, one of each image. -/
def imageCalls (second : Bool) : UploadCall :=
  uploadOf "key-1" (if second then imageB else imageA)

/-- Every request is answered as the store and the bucket are. -/
def answerStoring (i : Bool) (request : UploadRequest) (s : ImagesState Bool) :
    request.Answer × ImagesState Bool :=
  match request with
  | .store companyId imageSha256 bytes =>
      match S3ReceiptImageStorage.storageKey imagePlatform companyId imageSha256 bytes with
      | .error e => (.error e, s)
      | .ok storageKey =>
          (.ok storageKey,
            { s with objects := (s.objects.send storageKey bytes).land storageKey bytes })
  | request =>
      let (answer, calls, _) :=
        answerTo imagePlatform staff False (environmentAt 1) i s.calls [] request
      (answer, { s with calls })

theorem isConflict_of_storageKey {P : Platform} {companyId imageSha256 : JString}
    {bytes : List UInt8} {e : Failure}
    (h : S3ReceiptImageStorage.storageKey P companyId imageSha256 bytes = .error e) :
    e.isConflict = false := by
  unfold S3ReceiptImageStorage.storageKey ReceiptImageFormat.detect at h
  split at h
  · cases h
  · split at h
    · cases h
    · cases h
      rfl

theorem serves_answerStoring (i : Bool) (s : ImagesState Bool) (request : UploadRequest) :
    (imagesRules imagePlatform staff ⟨[]⟩ False imageCalls).serves i s request
      (answerStoring i request s).1 (answerStoring i request s).2 := by
  cases request with
  | store companyId imageSha256 bytes =>
      simp only [answerStoring]
      split
      · rename_i e hkey
        refine ⟨⟨fun _ he => ?_, trivial, rfl⟩, ?_⟩
        · cases he
          exact isConflict_of_storageKey hkey
        · simp [Objects.Serves, Objects.Stores, hkey]
      · rename_i storageKey hkey
        refine ⟨⟨fun _ he => absurd he (by simp), trivial, rfl⟩, ?_⟩
        simp [Objects.Serves, Objects.Stores, hkey]
  | findByCompanyIdAndIdempotencyKey | findByCompanyIdAndImageSha256 | findReceiptById
  | findJobByReceiptId | tryLock | unlock | now | createQueued | markDuplicate =>
      exact ⟨@serves_answerTo imagePlatform staff Bool _ False _ imageCalls s.calls []
        (environmentAt 1) i False.elim _, rfl⟩

theorem imageCalls_collisionFree : CollisionFree imagePlatform imageCalls := by
  unfold CollisionFree
  decide +kernel

/-- The state after the first upload has run alone. -/
def imageState : ImagesState Bool :=
  ((ReceiptUploadService.upload imagePlatform (imageCalls false)).run (answerStoring false)
    ⟨.start [], ⟨[], fun _ => none⟩⟩).2

end Sample

open Sample in
/-- The receipt of the first upload has its image in the bucket. -/
theorem imageState_intact :
    ∃ pool : ImagesPool Bool,
      ImagesRun imagePlatform staff ⟨[]⟩ False imageCalls (fun _ => none) pool ∧
      pool.shared = imageState ∧
      ∃ receipt job bytes contentType,
        (current staff (imagesTrace pool)).receiptRow 1 = some receipt ∧
        (current staff (imagesTrace pool)).findJobByReceiptId 1 = some job ∧
        imagePlatform.sha256 bytes = receipt.imageSha256 ∧ receipt.contentType = some contentType ∧
        pool.shared.objects.bucket job.imageStorageKey = some bytes := by
  obtain ⟨pool, hrun, hshared⟩ := Pool.Run.alone (serves_answerStoring false)
    (.step .initial (.start rfl rfl)) (Pool.threads_update_self ..)
  have htrace : imagesTrace pool = imageState.calls.trace :=
    congrArg (fun s => s.calls.trace) hshared
  have hreceipt : ∃ receipt, (current staff imageState.calls.trace).receiptRow 1 = some receipt :=
    Option.isSome_iff_exists.mp (by decide +kernel)
  obtain ⟨receipt, hreceipt⟩ := hreceipt
  rw [← htrace] at hreceipt
  obtain ⟨job, bytes, contentType, hjob, hdigest, hcontentType, hlater⟩ :=
    images_intact length_digest imageCalls_collisionFree hrun hreceipt
  exact ⟨pool, hrun, hshared, receipt, job, bytes, contentType, hreceipt, hjob, hdigest,
    hcontentType, (hlater pool .refl).1⟩

end ReceiptReview
