import Mathlib.Data.List.Count
import ReceiptReview.Concurrent.Locks
import ReceiptReview.Results.Intake

/-!
# Retries of one upload

A client repeats an upload under its idempotency key.  While the lock is exclusive,
the retries beside each other store one receipt, all that succeed return it, and it
is never marked as a duplicate (`retries_converge`).

An image that is stored is bound to the key (`CallsRun.bound`), since both are
stored in one commit.  A retry asks for the key and then for the image, both under
the lock, and nobody else stores the image in between.  So a retry that does not
find the key does not find the image either (`CallsRun.not_found`), and never marks
the receipt.
-/

namespace ReceiptReview

open Java Store ReceiptCase UploadTranscript ReceiptUploadService ReceiptPersistenceService

variable {P : Platform} {employees : Table Employee} {ι : Type} {exclusive : Prop}
variable {calls : ι → UploadCall} {call other : UploadCall} {key : JString}
variable {base trace : List Commit} {commit : Commit}
variable {operation : Operation} {x x' : ReceiptCase} {events : List AuditEvent}

/-! ## The calls -/

/-- The text of the receipt's image and company is that of the call. -/
def Receipt.OfImage (P : Platform) (call : UploadCall) (receipt : Receipt) : Prop :=
  P.textEq receipt.companyId call.companyId = true ∧
    P.textEq receipt.imageSha256 (P.sha256 call.bytes) = true

/-- The intake has recorded the key. -/
def Database.Creation.Binds (P : Platform) (call : UploadCall) (key : JString)
    (new : Database.Creation) : Prop :=
  ∃ record, new.record = some record ∧ P.textEq record.companyId call.companyId = true ∧
    P.textEq record.idempotencyKey key = true

/-- The call uploads the same image under the same key, which is not blank. -/
structure UploadCall.Retries (P : Platform) (call : UploadCall) (key : JString)
    (other : UploadCall) : Prop where
  companyId : other.companyId = call.companyId
  image : P.sha256 other.bytes = P.sha256 call.bytes
  key : ∃ key', normalize other.idempotencyKey = some key' ∧ key'.isBlank = false ∧
    P.textEq key' key = true

/-- The call uploads another image under another key, or for another company. -/
structure UploadCall.Unrelated (P : Platform) (call : UploadCall) (key : JString)
    (other : UploadCall) : Prop where
  image : ¬ (P.textEq other.companyId call.companyId = true ∧
    P.textEq (P.sha256 other.bytes) (P.sha256 call.bytes) = true)
  key : ∀ key', normalize other.idempotencyKey = some key' →
    ¬ (P.textEq other.companyId call.companyId = true ∧ P.textEq key' key = true)

theorem textEq_refl (text : JString) : P.textEq text text = true := by
  rw [Platform.textEq, beq_self_eq_true]

theorem UploadCall.Retries.lockKey (h : UploadCall.Retries P call key other) :
    other.lockKey P = call.lockKey P := by
  rw [UploadCall.lockKey, h.companyId, h.image, UploadCall.lockKey]

/-- Retries ask for the same key. -/
theorem UploadCall.Retries.textEq_key (h : UploadCall.Retries P call key other) {key' : JString}
    (hkey : normalize other.idempotencyKey = some key') : P.textEq key' key = true := by
  obtain ⟨key'', hkey'', -, heq⟩ := h.key
  rw [hkey] at hkey''
  cases hkey''
  exact heq

/-! ## The image and the key are stored together -/

/-- The intake of a retry stores the image and the key, and no other intake does. -/
theorem ofImage_iff_binds {new : Database.Creation} {receipt : Receipt}
    {job : ReceiptExtractionJob} (hnew : new.OfCall P other receipt job)
    (hkind : UploadCall.Retries P call key other ∨ UploadCall.Unrelated P call key other) :
    (new.receipt.OfImage P call ↔ new.Binds P call key) ∧
      (new.receipt.OfImage P call → UploadCall.Retries P call key other) := by
  obtain ⟨createdAt, hrecord⟩ := hnew.record
  rcases hkind with hretries | hunrelated
  · refine ⟨iff_of_true ?_ ?_, fun _ => hretries⟩
    · rw [hnew.theReceipt, Receipt.OfImage, hnew.companyId, hnew.imageSha256, hretries.companyId,
        hretries.image]
      exact ⟨textEq_refl _, textEq_refl _⟩
    · obtain ⟨key', hkey, hblank, heq⟩ := hretries.key
      refine ⟨_, by rw [hrecord, hkey, Option.filter_some, hblank]; rfl, ?_, heq⟩
      rw [← hretries.companyId]
      exact textEq_refl _
  · have himage : ¬ new.receipt.OfImage P call := by
      rw [hnew.theReceipt, Receipt.OfImage, hnew.companyId, hnew.imageSha256]
      exact hunrelated.image
    refine ⟨iff_of_false himage ?_, fun h => absurd h himage⟩
    intro hbinds
    obtain ⟨record, hsome, hcompany, heq⟩ := hbinds
    rw [hrecord] at hsome
    obtain ⟨key', hfilter, rfl⟩ := Option.map_eq_some_iff.mp hsome
    exact hunrelated.key key' (Option.filter_eq_some_iff.mp hfilter).1 ⟨hcompany, heq⟩

variable [DecidableEq ι] {pool pool' : CallsPool ι}

variable (hkinds : ∀ i, UploadCall.Retries P call key (calls i) ∨
  UploadCall.Unrelated P call key (calls i))
variable (hbase : Run P employees base)
variable (habsent : ∀ new ∈ creations base, ¬ new.receipt.OfImage P call)
variable (hunbound : ∀ new ∈ creations base, ¬ new.Binds P call key)

include hkinds habsent hunbound in
/-- The image is stored by the intakes that bind the key. -/
theorem CallsRun.bound (hcalls : CallsRun P employees exclusive calls base pool) :
    ∀ new ∈ creations pool.shared.trace, new.receipt.OfImage P call ↔ new.Binds P call key := by
  induction hcalls with
  | initial =>
      intro new hmem
      rw [Pool.initial, CallsState.trace_start] at hmem
      exact iff_of_false (habsent new hmem) (hunbound new hmem)
  | step hrun hstep ih =>
      rcases CallsRun.creation_cases hrun hstep with
        hsame | ⟨i, _, _, new, receipt, job, -, -, -, hnew, hlist⟩
      · rw [hsame]
        exact ih
      · rw [hlist, List.forall_mem_cons]
        exact ⟨(ofImage_iff_binds hnew (hkinds i)).1, ih⟩

/-! ## What a retry does not find -/

include hkinds hbase habsent hunbound in
/-- While the key of a retry is unknown, the image is not stored. -/
theorem CallsRun.absent_of_unknown (hcalls : CallsRun P employees exclusive calls base pool)
    (hretries : UploadCall.Retries P call key other) {key' : JString}
    (hkey : normalize other.idempotencyKey = some key')
    (hnone : (current employees pool.shared.trace).findByCompanyIdAndIdempotencyKey P
      other.companyId key' = none) :
    ∀ new ∈ creations pool.shared.trace, ¬ new.receipt.OfImage P call := by
  intro new hmem himage
  -- a stored image would be bound to the key
  obtain ⟨record, hrecord, hcompany, heq⟩ :=
    (hcalls.bound hkinds habsent hunbound new hmem).mp himage
  rw [(hcalls.run hbase).bound_of_intake hmem hrecord (hretries.companyId ▸ hcompany)
    (textEq_trans heq (textEq_symm (hretries.textEq_key hkey)))] at hnone
  exact absurd hnone (by simp)

include hkinds hbase habsent hunbound in
/-- Between the two lookups of a retry the image is not stored. -/
theorem CallsRun.absent_of_looked (hcalls : CallsRun P employees exclusive calls base pool)
    (hexclusive : exclusive) {i : ι} (hretries : UploadCall.Retries P call key (calls i))
    {companyId key' : JString} {older : UploadTranscript} {p : UploadProgram UploadResult}
    (hthread : pool.threads i = some ⟨⟨.findByCompanyIdAndIdempotencyKey companyId key',
      .ok none⟩ :: older, some p⟩) (hholding : Holding older) :
    ∀ new ∈ creations pool.shared.trace, ¬ new.receipt.OfImage P call := by
  induction hcalls generalizing p with
  | initial => exact absurd hthread (by simp [Pool.initial])
  | @step pool pool' hrun hstep ih =>
      have hrun' : CallsRun P employees exclusive calls base pool := hrun
      rcases hstep.thread_cases hthread with hsame | ⟨hstarted, -⟩ |
        ⟨past, r, next, answer, hserved, hnext, hserves⟩ | ⟨_, _, -, hdied, -⟩
      · rcases hrun'.creation_cases hstep with
          hlist | ⟨j, _, _, new, receipt, job, hother, hholding', hpast, hnew, hlist⟩
        · rw [hlist]
          exact ih hsame
        · rw [hlist, List.forall_mem_cons]
          refine ⟨fun himage => ?_, ih hsame⟩
          -- both calls would hold the one lock
          have hretries' := (ofImage_iff_binds hnew (hkinds j)).2 himage
          obtain rfl := hrun'.eq_of_holding hexclusive hsame hother hholding hholding'
            (hretries.lockKey.trans hretries'.lockKey.symm)
          rw [Pool.past_of_thread hthread, Pool.past_of_thread hsame] at hpast
          exact absurd hpast.symm (List.cons_ne_self _ _)
      · exact absurd hstarted (by simp)
      · cases hnext
        obtain ⟨-, hanswer, hsame⟩ := hserves
        obtain ⟨rfl, hkey⟩ := hrun'.allowed hserved
        rw [show pool'.shared = pool.shared from hsame]
        exact hrun'.absent_of_unknown hkinds hbase habsent hunbound hretries hkey
          (Eq.symm hanswer)
      · exact absurd hdied (by simp)

include hkinds hbase habsent hunbound in
/-- A retry that has not found its key does not find its image. -/
theorem CallsRun.not_found (hcalls : CallsRun P employees exclusive calls base pool)
    (hexclusive : exclusive) {i : ι} (hretries : UploadCall.Retries P call key (calls i))
    {existing : Receipt} {rest : UploadTranscript} {p : UploadProgram UploadResult}
    (hthread : pool.threads i = some ⟨⟨.findByCompanyIdAndImageSha256 (calls i).companyId
      (P.sha256 (calls i).bytes), .ok (some existing)⟩ :: rest, some p⟩)
    (hkey : KeyUnknown (calls i) rest) : False := by
  -- the moment at which the image was found
  obtain ⟨before, _, next, hbefore, -, -, hserved, hserves, -⟩ :=
    hcalls.served ⟨[], (Pool.past_of_thread hthread).symm⟩
  have hrun : CallsRun P employees exclusive calls base before := hbefore
  obtain ⟨key', hkey', -⟩ := hretries.key
  -- the image was looked for under the lock, right after the key
  obtain ⟨older, rfl, hholding⟩ := hkey key' hkey'
  have habsent' := hrun.absent_of_looked hkinds hbase habsent hunbound hexclusive hretries
    hserved hholding
  have hfound : some existing =
      (current employees before.shared.trace).findByCompanyIdAndImageSha256 P
        (calls i).companyId (P.sha256 (calls i).bytes) := hserves.2.1
  obtain ⟨hstored, hcompany, himage⟩ := findByCompanyIdAndImageSha256_eq_some hfound.symm
  -- whatever is found was taken in before, and no intake has the image
  obtain ⟨new, hmem, hsame⟩ := (hrun.run hbase).catalogued.found hstored
  refine habsent' new hmem ⟨?_, ?_⟩
  · rw [← hsame.companyId, ← hretries.companyId]
    exact hcompany
  · rw [← hsame.imageSha256, ← hretries.image]
    exact himage

/-! ## The receipt is not marked -/

/-- The receipt that an unrelated call has found is of another image. -/
theorem CallsRun.found_of_unrelated (hcalls : CallsRun P employees exclusive calls base pool)
    (hbase : Run P employees base) {i : ι}
    (hunrelated : UploadCall.Unrelated P call key (calls i)) {existing stored : Receipt}
    (hfound : Answered (pool.past i) (.findByCompanyIdAndImageSha256 (calls i).companyId
      (P.sha256 (calls i).bytes)) (some existing))
    (hstored : (current employees pool.shared.trace).receiptRow existing.id = some stored) :
    ¬ stored.OfImage P call := by
  obtain ⟨⟨stored', hstored', hsame⟩, hcompany, hsha⟩ := hcalls.holdsImage hbase hfound
  rw [hstored] at hstored'
  cases hstored'
  intro himage
  obtain ⟨hcompany', himage'⟩ := himage
  refine hunrelated.image ⟨textEq_trans (textEq_symm hcompany) ?_, ?_⟩
  · rw [hsame.companyId]
    exact hcompany'
  · rw [← hsha, hsame.imageSha256]
    exact himage'

include hkinds hbase habsent hunbound in
/-- The transaction that marks a receipt marks one of another image. -/
theorem CallsRun.marks_other (hcalls : CallsRun P employees exclusive calls base pool)
    (hexclusive : exclusive) {i : ι} {past : UploadTranscript} {p : UploadProgram UploadResult}
    (hthread : pool.threads i = some ⟨past, some p⟩) {id : Long} {stored : Receipt}
    (hallows : UploadAllows P (calls i) past (.markDuplicate id))
    (hstored : (current employees pool.shared.trace).receiptRow id = some stored) :
    ¬ stored.OfImage P call := by
  obtain ⟨-, -, existing, rest, rfl, rfl, -, hkey⟩ := hallows
  rcases hkinds i with hretries | hunrelated
  · exact (hcalls.not_found hkinds hbase habsent hunbound hexclusive hretries hthread hkey).elim
  · refine hcalls.found_of_unrelated hbase hunrelated ?_ hstored
    rw [Answered, Pool.past_of_thread hthread]
    exact List.mem_cons_self

/-- A commit that marks no receipt of the image leaves the receipt of the image unmarked. -/
theorem Run.unmarked_cons (h : Run P employees (commit :: trace))
    (hunmarked : ∀ x, (current employees trace).HasCase x → x.receipt.OfImage P call →
      x.job.duplicateDetected = false)
    (hmarks : ∀ x now today, (current employees trace).HasCase x →
      commit.operation = .markDuplicate x.receipt.id now today → ¬ x.receipt.OfImage P call) :
    ∀ x, (current employees (commit :: trace)).HasCase x → x.receipt.OfImage P call →
      x.job.duplicateDetected = false := by
  intro x' hx' himage
  rcases h.created_or_moved hx' with ⟨_, _, _, _, _, _, _, _, -, rfl, -, -⟩ | ⟨x, hx, hmoves⟩
  · rfl
  · have hsame := hmoves.sameReceipt
    have himage' : x.receipt.OfImage P call := by
      rw [Receipt.OfImage, ← hsame.companyId, ← hsame.imageSha256]
      exact himage
    rcases hmoves with ⟨rfl, -⟩ | hstep
    · exact hunmarked x' hx himage
    · rcases hstep.flag_or_mark with hflag | ⟨now, today, hoperation⟩
      · exact hflag.trans (hunmarked x hx himage')
      · exact absurd himage' (hmarks x now today hx hoperation)

include hkinds hbase habsent hunbound in
/-- The receipt of the image is never marked. -/
theorem CallsRun.unmarked (hcalls : CallsRun P employees exclusive calls base pool)
    (hexclusive : exclusive) :
    ∀ x, (current employees pool.shared.trace).HasCase x → x.receipt.OfImage P call →
      x.job.duplicateDetected = false := by
  induction hcalls with
  | initial =>
      -- no receipt of the image was there to be marked
      intro x hx himage
      rw [Pool.initial, CallsState.trace_start] at hx
      obtain ⟨new, hmem, hsame⟩ := hbase.catalogued.created _ _ hx.receipt
      refine absurd ?_ (habsent new hmem)
      rw [Receipt.OfImage, ← hsame.companyId, ← hsame.imageSha256]
      exact himage
  | @step pool pool' hrun hstep ih =>
      have hrun' : CallsRun P employees exclusive calls base pool := hrun
      have hnext : CallsRun P employees exclusive calls base pool' := Pool.Run.step hrun hstep
      have htrace := hnext.run hbase
      cases hrun'.step_cases hstep with
      | quiet hsame =>
          rw [CallsState.trace_of_log hsame]
          exact ih
      | other commit hlog hintake =>
          rw [CallsState.trace, hlog] at htrace ⊢
          refine Run.unmarked_cons htrace ih fun x now today _ hoperation => ?_
          rw [hoperation] at hintake
          exact absurd hintake (by simp [Operation.isIntake])
      | served i past rest exchange commit hlog hthread hallows hmade =>
          rw [CallsState.trace, hlog] at htrace ⊢
          refine Run.unmarked_cons htrace ih fun x now today hx hoperation => ?_
          rcases hmade.cases with ⟨_, _, _, _, _, _, rfl⟩ | ⟨_, _, rfl⟩
          · obtain ⟨⟨_, _, _, _, hcreates⟩, -⟩ := hmade
            rw [hoperation] at hcreates
            exact absurd hcreates (by simp)
          · -- only a call that has found the receipt marks it, and none of the image does
            obtain ⟨⟨_, _, hmarks⟩, -⟩ := hmade
            rw [hoperation] at hmarks
            cases hmarks
            exact hrun'.marks_other hkinds hbase habsent hunbound hexclusive hthread hallows
              hx.receipt

/-! ## The receipt of the retries -/

/-- The image is stored once, with one job that is not flagged, one record of the key,
one `UPLOADED` event and no `DUPLICATE_DETECTED` event. -/
structure Database.StoredOnce (P : Platform) (db : Database) (call : UploadCall) (key : JString)
    (receiptId : Long) : Prop where
  receipt : ∃ receipt, db.receiptRow receiptId = some receipt ∧ receipt.OfImage P call ∧
    ∀ other ∈ db.receipts.rows, other.OfImage P call → other = receipt
  job : ∃ job, db.findJobByReceiptId receiptId = some job ∧ job.duplicateDetected = false ∧
    ∀ other ∈ db.jobs.rows, other.receiptId = receiptId → other = job
  record : ∃ record, record.receiptId = receiptId ∧
    db.findByCompanyIdAndIdempotencyKey P call.companyId key = some record ∧
    (db.idempotencyRecords.filter fun other => other.receiptId = receiptId ||
      P.textEq other.companyId call.companyId && P.textEq other.idempotencyKey key) = [record]
  uploaded : db.eventCount receiptId .uploaded = 1
  unmarked : db.eventCount receiptId .duplicateDetected = 0

/-- A receipt has at most one idempotency record. -/
theorem Run.records_nodup (h : Run P employees trace) :
    (current employees trace).idempotencyRecords.Nodup := by
  have hcatalogued := h.catalogued
  have hids := hcatalogued.nodup
  rw [List.Nodup, List.pairwise_map] at hids
  rw [hcatalogued.records, List.Nodup, List.pairwise_filterMap, List.pairwise_reverse]
  refine hids.imp_of_mem fun {new new'} hnew hnew' hne record hrecord record' hrecord' heq => ?_
  apply hne
  calc new.receipt.id
      = record'.receiptId := ((hcatalogued.wellFormed new hnew).record _ hrecord').1.symm
    _ = record.receiptId := by rw [heq]
    _ = new'.receipt.id := ((hcatalogued.wellFormed new' hnew').record _ hrecord).1

/-- The record of a key and a receipt is the only one of either. -/
theorem Run.records_eq_singleton (h : Run P employees trace) {new : Database.Creation}
    (hnew : new ∈ creations trace) {record : IdempotencyRecord} (hrecord : new.record = some record)
    {companyId idempotencyKey : JString} (hcompany : P.textEq record.companyId companyId = true)
    (hkey : P.textEq record.idempotencyKey idempotencyKey = true) :
    ((current employees trace).idempotencyRecords.filter fun other =>
      other.receiptId = new.receipt.id ||
        P.textEq other.companyId companyId && P.textEq other.idempotencyKey idempotencyKey) =
      [record] := by
  have hcatalogued := h.catalogued
  have hid := ((hcatalogued.wellFormed new hnew).record record hrecord).1
  have hmem : record ∈ (current employees trace).idempotencyRecords := by
    rw [hcatalogued.records, List.mem_filterMap]
    exact ⟨new, by simpa using hnew, hrecord⟩
  -- a record of the receipt or of the key belongs to the same intake
  have honly : ∀ other ∈ (current employees trace).idempotencyRecords,
      (decide (other.receiptId = new.receipt.id) ||
        P.textEq other.companyId companyId && P.textEq other.idempotencyKey idempotencyKey) =
      decide (other = record) := by
    intro other hother
    rw [hcatalogued.records, List.mem_filterMap] at hother
    obtain ⟨new', hnew', hrecord'⟩ := hother
    rw [List.mem_reverse] at hnew'
    have hid' := ((hcatalogued.wellFormed new' hnew').record other hrecord').1
    rw [Bool.eq_iff_iff, decide_eq_true_eq, Bool.or_eq_true, Bool.and_eq_true, decide_eq_true_eq]
    constructor
    · intro hor
      rcases hor with hsame | ⟨hcompany', hkey'⟩
      · obtain rfl := List.inj_on_of_nodup_map hcatalogued.nodup hnew' hnew (hid'.symm.trans hsame)
        rw [hrecord] at hrecord'
        exact (Option.some.inj hrecord').symm
      · have hbound := h.bound_of_intake hnew hrecord hcompany hkey
        rw [h.bound_of_intake hnew' hrecord' hcompany' hkey'] at hbound
        exact Option.some.inj hbound
    · rintro rfl
      exact .inl hid
  rw [List.filter_congr honly, List.filter_eq, List.count_eq_one_of_mem h.records_nodup hmem]
  rfl

include hkinds hbase habsent hunbound in
/-- The image, once it is stored, is stored with everything of its first upload. -/
theorem CallsRun.storedOnce (hcalls : CallsRun P employees exclusive calls base pool)
    (hexclusive : exclusive) {id : Long} {receipt : Receipt}
    (hreceipt : (current employees pool.shared.trace).receiptRow id = some receipt)
    (himage : receipt.OfImage P call) :
    (current employees pool.shared.trace).StoredOnce P call key id := by
  have hrun := hcalls.run hbase
  have hpaired := hrun.current_refines.paired
  have hid := Database.id_of_receiptRow hreceipt
  obtain ⟨x, hx, rfl⟩ := hpaired.of_receipt hreceipt
  have hjob := hpaired.findJobByReceiptId hx
  have hflag := hcalls.unmarked hkinds hbase habsent hunbound hexclusive x hx himage
  obtain ⟨job, hfound, hunique⟩ := hrun.complete.jobs id x.receipt hreceipt
  rw [hid] at hjob
  have hsameJob : job = x.job := Option.some.inj (hfound.symm.trans hjob)
  constructor
  case receipt =>
    refine ⟨x.receipt, hreceipt, himage, fun other hother himage' => ?_⟩
    -- two receipts with one image are one row
    have hstored : (current employees pool.shared.trace).receiptRow other.id = some other :=
      Table.find?_of_mem hother
    have heq := hrun.eq_of_sameImage hstored hreceipt
      (textEq_trans himage'.1 (textEq_symm himage.1))
      (textEq_trans himage'.2 (textEq_symm himage.2))
    rw [heq, hreceipt] at hstored
    exact (Option.some.inj hstored).symm
  case job => exact ⟨job, hfound, hsameJob ▸ hflag, hunique⟩
  case record =>
    obtain ⟨new, hnew, hsame⟩ := hrun.catalogued.created id x.receipt hreceipt
    have hnewImage : new.receipt.OfImage P call := by
      rw [Receipt.OfImage, ← hsame.companyId, ← hsame.imageSha256]
      exact himage
    -- the intake of an image is made under the key of its uploads
    obtain ⟨record, hrecord, hcompany, hkey⟩ :=
      (hcalls.bound hkinds habsent hunbound new hnew).mp hnewImage
    have hnewId : new.receipt.id = id := hsame.id.symm.trans hid
    refine ⟨record, ?_, hrun.bound_of_intake hnew hrecord hcompany hkey, ?_⟩
    · exact ((hrun.catalogued.wellFormed new hnew).record record hrecord).1.trans hnewId
    · rw [← hnewId]
      exact hrun.records_eq_singleton hnew hrecord hcompany hkey
  case uploaded => exact hrun.complete.uploaded id x.receipt hreceipt
  case unmarked =>
    rw [hrun.duplicate_events hreceipt hjob, hflag]
    rfl

include hkinds habsent hunbound in
/-- A retry that succeeds returns the receipt of the image. -/
theorem CallsRun.returned_of_retries (hcalls : CallsRun P employees exclusive calls base pool)
    (hbase : Run P employees base) {i : ι} (hretries : UploadCall.Retries P call key (calls i))
    {result : UploadResult} (hended : pool.Ended i (.ok result)) :
    ∃ receipt, (current employees pool.shared.trace).receiptRow result.receipt.id = some receipt ∧
      receipt.OfImage P call := by
  have hrun := hcalls.run hbase
  by_cases hreplay : result.idempotentReplay = true
  · cases hcalls.ended hended with
    | @replayed _ key' record _ hkey hrecord hreceipt =>
        obtain ⟨moment, -, hupto, hthen⟩ := hcalls.true_since i _ hrecord
        obtain ⟨moment', -, -, hthen'⟩ := hcalls.true_since i _ hreceipt
        have hfound : some result.receipt =
            (current employees moment').findReceipt record.receiptId := hthen'
        have hbound := hrun.bound_later hupto hthen.symm
        obtain ⟨new, hnew, hnewRecord, hid⟩ := hrun.intake_of_record hbound
        obtain ⟨-, hcompany, heq⟩ := findByCompanyIdAndIdempotencyKey_eq_some hbound
        have himage : new.receipt.OfImage P call :=
          (hcalls.bound hkinds habsent hunbound new hnew).mpr ⟨record, hnewRecord,
            hretries.companyId ▸ hcompany, textEq_trans heq (hretries.textEq_key hkey)⟩
        obtain ⟨receipt, hstored, hsame⟩ := hrun.catalogued.stored new hnew
        refine ⟨receipt, ?_, ?_⟩
        · rw [Database.id_of_findReceipt hfound.symm, hid]
          exact hstored
        · rw [Receipt.OfImage, hsame.companyId, hsame.imageSha256]
          exact himage
    | processed _ _ _ _ _ _ hnot | marked _ _ _ _ _ hnot | created _ _ hnot =>
        rw [hreplay] at hnot
        exact absurd hnot (by simp)
  · obtain ⟨⟨stored, hstored, hsame⟩, hcompany, himage⟩ :=
      hcalls.returned_image hbase hended (by simpa using hreplay)
    refine ⟨stored, hstored, ?_, ?_⟩
    · rw [← hsame.companyId, ← hretries.companyId]
      exact hcompany
    · rw [← hsame.imageSha256, himage, hretries.image]
      exact textEq_refl _

omit [DecidableEq ι] in
/-- The image has no intake where it is not found. -/
theorem Run.absent (h : Run P employees base)
    (hnone : (current employees base).findByCompanyIdAndImageSha256 P call.companyId
      (P.sha256 call.bytes) = none) :
    ∀ new ∈ creations base, ¬ new.receipt.OfImage P call := by
  intro new hnew himage
  obtain ⟨receipt, hstored, hsame⟩ := h.catalogued.stored new hnew
  apply findByCompanyIdAndImageSha256_eq_none.mp hnone new.receipt.id receipt hstored
  rw [hsame.companyId, hsame.imageSha256]
  exact himage

omit [DecidableEq ι] in
/-- The key has no intake where it is not found. -/
theorem Run.unbound (h : Run P employees base)
    (hnone : (current employees base).findByCompanyIdAndIdempotencyKey P call.companyId key =
      none) :
    ∀ new ∈ creations base, ¬ new.Binds P call key := by
  intro new hnew hbinds
  obtain ⟨record, hrecord, hcompany, hkey⟩ := hbinds
  rw [h.bound_of_intake hnew hrecord hcompany hkey] at hnone
  exact absurd hnone (by simp)

/-- A receipt is stored in every pool that is reached later. -/
theorem CallsRun.stored_later (hcalls : CallsRun P employees exclusive calls base pool')
    (hbase : Run P employees base)
    (hlater : Relation.ReflTransGen (Pool.Step (callsRules P employees exclusive calls)) pool pool')
    {id : Long} {receipt : Receipt}
    (hreceipt : (current employees pool.shared.trace).receiptRow id = some receipt) :
    ∃ receipt', (current employees pool'.shared.trace).receiptRow id = some receipt' ∧
      SameReceipt receipt receipt' := by
  have hsuffix : pool.shared.trace <:+ pool'.shared.trace :=
    Pool.log_later (·.shared.trace) (fun _ _ _ hstep => trace_suffix_of_moves hstep.moves) hlater
  exact (hcalls.run hbase).stored_later hsuffix hreceipt

/-- Let the lock be exclusive, and let every upload of the image carry the key and
every upload under the key carry the image.  Once a retry has succeeded, beside any
other uploads, workers and employees, the store holds its receipt with one job that
is not flagged, one record of the key, one `UPLOADED` event and no
`DUPLICATE_DETECTED` event, and every retry that succeeds returns that receipt. -/
theorem retries_converge (hbase : Run P employees base)
    (himage : (current employees base).findByCompanyIdAndImageSha256 P call.companyId
      (P.sha256 call.bytes) = none)
    (hkey : (current employees base).findByCompanyIdAndIdempotencyKey P call.companyId key = none)
    (hkinds : ∀ i, UploadCall.Retries P call key (calls i) ∨
      UploadCall.Unrelated P call key (calls i))
    (hcalls : CallsRun P employees True calls base pool) {first : ι} {result : UploadResult}
    (hfirst : UploadCall.Retries P call key (calls first))
    (hended : pool.Ended first (.ok result))
    (hlater : Relation.ReflTransGen (Pool.Step (callsRules P employees True calls)) pool pool') :
    (current employees pool'.shared.trace).StoredOnce P call key result.receipt.id ∧
      ∀ i result', UploadCall.Retries P call key (calls i) → pool'.Ended i (.ok result') →
        result'.receipt.id = result.receipt.id := by
  have habsent := hbase.absent himage
  have hunbound := hbase.unbound hkey
  have hcalls' : CallsRun P employees True calls base pool' := Pool.Run.later hcalls hlater
  obtain ⟨earlier, hearlier, hofImage⟩ :=
    hcalls.returned_of_retries hkinds habsent hunbound hbase hfirst hended
  obtain ⟨receipt, hreceipt, hsame⟩ := hcalls'.stored_later hbase hlater hearlier
  have hofImage' : receipt.OfImage P call := by
    rw [Receipt.OfImage, hsame.companyId, hsame.imageSha256]
    exact hofImage
  constructor
  · exact hcalls'.storedOnce hkinds hbase habsent hunbound trivial hreceipt hofImage'
  · intro i result' hretries hended'
    obtain ⟨other, hother, himage'⟩ :=
      hcalls'.returned_of_retries hkinds habsent hunbound hbase hretries hended'
    apply (hcalls'.run hbase).eq_of_sameImage hother hreceipt
    · exact textEq_trans himage'.1 (textEq_symm hofImage'.1)
    · exact textEq_trans himage'.2 (textEq_symm hofImage'.2)

namespace Sample

/-- The same upload again and again. -/
def retryCalls (_ : ℕ) : UploadCall := uploadOf "key-1" imageA

/-- Neither retry finds the key.  The first stores the receipt and leaves the lock,
and the second asks for the key once more. -/
def retryActions : List (CallsAction ℕ) :=
  [.start 0, .start 1] ++ goesOn 1 2 2 ++ goesOn 0 1 9 ++ goesOn 1 3 5

def retryPool : CallsPool ℕ := poolAfter platform staff True retryCalls [] retryActions

theorem retryPool_run : CallsRun platform staff True retryCalls [] retryPool := by
  apply callsRun_poolAfter
  simp [retryActions, goesOn, CallsAction.Permitted]

theorem retryCalls_retries (i : ℕ) :
    UploadCall.Retries platform (uploadOf "key-1" imageA) (.ofString "key-1") (retryCalls i) := by
  rw [retryCalls]
  exact ⟨rfl, rfl, .ofString "key-1", by decide +kernel, by decide +kernel, by decide +kernel⟩

end Sample

open Sample in
/-- A retry beside the first upload returns its receipt, which is not a duplicate. -/
theorem retryPool_converges :
    ∃ first second, retryPool.Ended 0 (.ok first) ∧ retryPool.Ended 1 (.ok second) ∧
      first.created = true ∧ second.receipt.id = first.receipt.id ∧
      (current staff retryPool.shared.trace).StoredOnce platform (uploadOf "key-1" imageA)
        (.ofString "key-1") first.receipt.id := by
  obtain ⟨first, hfirst, hcreated⟩ := Pool.ended_of_returns
    (show retryPool.returns 0 (fun first => first.created) = true by decide +kernel)
  obtain ⟨second, hsecond, -⟩ := Pool.ended_of_returns
    (show retryPool.returns 1 (fun second => second.idempotentReplay) = true by decide +kernel)
  obtain ⟨hstored, hsame⟩ := retries_converge .nil (by decide +kernel) (by decide +kernel)
    (fun i => .inl (retryCalls_retries i)) retryPool_run (retryCalls_retries 0) hfirst .refl
  exact ⟨first, second, hfirst, hsecond, hcreated, hsame 1 second (retryCalls_retries 1) hsecond,
    hstored⟩

end ReceiptReview
