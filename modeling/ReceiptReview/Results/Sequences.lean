import ReceiptReview.Results.Idempotency

/-!
# Sequences of uploads under one key

The uploads of one owner, one after the other, while the rest of the system goes
on.  A call leaves its key bound if the key is bound already or if the call
stores a new image (`Database.Binds`).  The third way to end, the duplicate,
binds nothing.  So the successful calls under one key return one receipt unless
one of them has been answered as a duplicate and a later one returns another
receipt (`one_receipt_iff`).
-/

namespace ReceiptReview

open Java Store ReceiptCase

variable {P : Platform} {employees : Table Employee} {call : UploadCall}
variable {trace start : List Commit} {s s' : UploadState} {result result' : UploadResult}
variable {new : Database.Creation} {before : Database} {key : JString}

/-! ## Calls in turn -/

/-- An intake of the caller. -/
def Database.Creation.IsOf (P : Platform) (new : Database.Creation) (call : UploadCall) : Prop :=
  P.textEq new.receipt.companyId call.companyId = true ∧ new.receipt.ownerEmployeeId = call.ownerId

/-- The rest of the system goes on, without another intake of the caller. -/
def OthersInTurn (P : Platform) (employees : Table Employee) (call : UploadCall)
    (s s' : UploadState) : Prop :=
  Others P employees s s' ∧ ∃ newer, creations s'.trace = newer ++ creations s.trace ∧
    ∀ new ∈ newer, ¬ new.IsOf P call

/-- An upload call during which the caller has no other upload. -/
def UploadsInTurn (P : Platform) (employees : Table Employee) (trace : List Commit)
    (call : UploadCall) (outcome : Except Failure UploadResult) (s' : UploadState) : Prop :=
  Program.Executes (Answers P employees) (OthersInTurn P employees call) (.start trace)
    (ReceiptUploadService.upload P call) outcome s'

theorem UploadsInTurn.uploads {outcome : Except Failure UploadResult}
    (h : UploadsInTurn P employees trace call outcome s) :
    Uploads P employees trace call outcome s :=
  h.mono fun _ _ hothers => hothers.1

/-- The intakes since the start of a call: those of the caller are those of the call. -/
def InTurn (P : Platform) (call : UploadCall) (start : List Commit) (s : UploadState) : Prop :=
  ∃ newer, creations s.trace = newer ++ creations start ∧
    (∀ new ∈ newer, new.IsOf P call → new ∈ creations s.own) ∧
    ∀ new ∈ creations s.own, new ∈ newer

theorem creations_append (newer older : List Commit) :
    creations (newer ++ older) = creations newer ++ creations older :=
  List.filterMap_append

theorem UploadsInTurn.inTurn {outcome : Except Failure UploadResult}
    (h : UploadsInTurn P employees trace call outcome s) : InTurn P call trace s := by
  refine Program.Executes.invariant ?_ ?_ h ⟨[], rfl, by simp, by simp [UploadState.start]⟩
  · -- while others go on, no intake of the caller is added
    rintro s s' ⟨newer, hcreations, hmine, hown⟩ ⟨⟨-, -, hsame, -⟩, elsewhere, hmore, hothers⟩
    refine ⟨elsewhere ++ newer, by rw [hmore, hcreations, List.append_assoc], ?_, ?_⟩
    · intro new hmem hof
      rw [hsame]
      rcases List.mem_append.mp hmem with hmem | hmem
      · exact absurd hof (hothers new hmem)
      · exact hmine new hmem hof
    · intro new hmem
      rw [hsame] at hmem
      exact List.mem_append_right _ (hown new hmem)
  · -- a request of the call adds its intake to both lists
    rintro s request answer s' ⟨newer, hcreations, hmine, hown⟩ hanswers
    obtain ⟨commits, htrace, hcommits⟩ := hanswers.frame
    refine ⟨creations commits ++ newer, ?_, ?_, ?_⟩
    · rw [htrace, creations_append, hcreations, List.append_assoc]
    · intro new hmem hof
      rw [hcommits, creations_append, List.mem_append]
      exact (List.mem_append.mp hmem).imp_right fun hmem => hmine new hmem hof
    · intro new hmem
      rw [hcommits, creations_append] at hmem
      exact List.mem_append.mpr ((List.mem_append.mp hmem).imp_right (hown new))

/-! ## What a call leaves behind -/

/-- A call that finds this database leaves its key bound. -/
def Database.Binds (P : Platform) (db : Database) (call : UploadCall) : Prop :=
  ¬ db.Unbound P call ∨
    (db.findByCompanyIdAndImageSha256 P call.companyId (P.sha256 call.bytes) = none ∧
      ∀ key, ReceiptUploadService.normalize call.idempotencyKey = some key → key.isBlank = false)

/-- What is known about the receipt of a successful call at a later moment. -/
structure Remembered (P : Platform) (employees : Table Employee) (call : UploadCall)
    (before : Database) (receipt : Receipt) (trace : List Commit) : Prop where
  bound : before.Binds P call → ∀ key,
    ReceiptUploadService.normalize call.idempotencyKey = some key →
      ∃ record, (current employees trace).findByCompanyIdAndIdempotencyKey P call.companyId key =
        some record ∧ record.receiptId = receipt.id
  image : ¬ before.Binds P call → Acknowledges P employees call trace receipt
  unbound : ¬ before.Binds P call → ∀ key record,
    ReceiptUploadService.normalize call.idempotencyKey = some key →
      (current employees trace).findByCompanyIdAndIdempotencyKey P call.companyId key =
        some record → record.receiptId ≠ receipt.id

/-- A key that becomes bound is bound to a receipt that is not stored yet. -/
theorem Remembered.later {receipt : Receipt} {trace' : List Commit} (hrun : Run P employees trace')
    (hsuffix : trace <:+ trace') (h : Remembered P employees call before receipt trace) :
    Remembered P employees call before receipt trace' where
  bound hbinds key hkey := by
    obtain ⟨record, hrecord, hid⟩ := h.bound hbinds key hkey
    exact ⟨record, hrun.bound_later hsuffix hrecord, hid⟩
  image hbinds := (h.image hbinds).later hrun hsuffix
  unbound hbinds key record hkey hrecord := by
    cases hthen : (current employees trace).findByCompanyIdAndIdempotencyKey P call.companyId
        key with
    | some record' =>
        have hlater := hrun.bound_later hsuffix hthen
        rw [hrecord] at hlater
        cases hlater
        exact h.unbound hbinds key record hkey hthen
    | none =>
        obtain ⟨stored, hstored, -⟩ := (h.image hbinds).stored
        have hfresh := hrun.fresh_of_bound hsuffix hthen hrecord
        intro hid
        rw [hid, hstored] at hfresh
        exact absurd hfresh (by simp)

theorem InTurn.mem_start (h : InTurn P call start s) (hown : creations s.own = [])
    (hmem : new ∈ creations s.trace) (hof : new.IsOf P call) : new ∈ creations start := by
  obtain ⟨newer, hcreations, hmine, -⟩ := h
  rw [hcreations, List.mem_append] at hmem
  rcases hmem with hmem | hmem
  · have hempty := hmine new hmem hof
    rw [hown] at hempty
    exact absurd hempty (by simp)
  · exact hmem

/-- A call replays only what was bound before it. -/
theorem Replayed.not_unbound (h : Replayed P employees call start s result)
    (hturn : InTurn P call start s) : ¬ (current employees start).Unbound P call := by
  obtain ⟨moment, receipt, _, hsince, hupto, ⟨key, record, hkey, hrecord, hreceipt⟩, -,
    howner, -⟩ := h.found
  have hrun := h.run.suffix hupto
  obtain ⟨new, hnew, hnewRecord, hid⟩ := hrun.intake_of_record hrecord
  obtain ⟨-, hcompany, hmatches⟩ := findByCompanyIdAndIdempotencyKey_eq_some hrecord
  obtain ⟨stored, hstored, hsame⟩ := hrun.catalogued.stored new hnew
  rw [← hid, hreceipt] at hstored
  cases hstored
  have hrecordCompany := ((hrun.catalogued.wellFormed new hnew).record record hnewRecord).2.1
  have hof : new.IsOf P call := ⟨hrecordCompany ▸ hcompany, hsame.ownerEmployeeId.symm.trans howner⟩
  have hstart := hturn.mem_start h.own ((creations_suffix hupto).subset hnew) hof
  intro hunbound
  have hbound := (hrun.suffix hsince).bound_of_intake hstart hnewRecord hcompany hmatches
  rw [hunbound key hkey] at hbound
  exact absurd hbound (by simp)

/-- A call returns only a duplicate that was stored before it. -/
theorem Duplicate.intake (h : Duplicate P employees call start s result)
    (hturn : InTurn P call start s) :
    (current employees start).findByCompanyIdAndImageSha256 P call.companyId
        (P.sha256 call.bytes) ≠ none ∧
      ∃ new ∈ creations start, new.receipt.id = result.receipt.id := by
  obtain ⟨moment, receipt, hsince, hupto, himage, howner, hid, -⟩ := h.found
  have hrun := h.pending.run.suffix hupto
  obtain ⟨hstored, hcompany, hmatches⟩ := findByCompanyIdAndImageSha256_eq_some himage
  obtain ⟨new, hnew, hsame⟩ := hrun.catalogued.found hstored
  have hof : new.IsOf P call :=
    ⟨hsame.companyId ▸ hcompany, hsame.ownerEmployeeId.symm.trans howner⟩
  have hstart := hturn.mem_start h.pending.own ((creations_suffix hupto).subset hnew) hof
  refine ⟨fun hnone => ?_, new, hstart, by rw [hid, hsame.id]⟩
  obtain ⟨old, hold, hsame'⟩ := (hrun.suffix hsince).catalogued.stored new hstart
  refine findByCompanyIdAndImageSha256_eq_none.mp hnone _ old hold ?_
  rw [hsame'.companyId, hsame'.imageSha256, ← hsame.companyId, ← hsame.imageSha256]
  exact ⟨hcompany, hmatches⟩

/-- A call creates a receipt only when its image was not stored before it. -/
theorem Created.not_stored (h : Created P employees call start s result)
    (hturn : InTurn P call start s) :
    (current employees start).findByCompanyIdAndImageSha256 P call.companyId
      (P.sha256 call.bytes) = none := by
  obtain ⟨new, _, hmem, hown, -, hcompany, hdigest, -⟩ := h.intake
  obtain ⟨newer, hcreations, -, hnewer⟩ := hturn
  by_contra hstored
  obtain ⟨receipt, himage⟩ := Option.ne_none_iff_exists'.mp hstored
  obtain ⟨hreceipt, hsameCompany, hmatches⟩ := findByCompanyIdAndImageSha256_eq_some himage
  obtain ⟨old, hold, hsame⟩ := (h.run.suffix h.since).catalogued.found hreceipt
  have himages := h.run.catalogued.images
  rw [hcreations, List.pairwise_append] at himages
  have hnew : new ∈ newer := hnewer new (by simp [hown])
  refine himages.2.2 new hnew old hold ?_
  rw [Database.Creation.sameImage, ← hsame.companyId, ← hsame.imageSha256, hcompany, hdigest]
  exact ⟨hsameCompany, hmatches⟩

/-- A key that was not bound before a call is not bound to a receipt whose
intake is older, or has recorded no key. -/
theorem ne_of_unbound (hrun : Run P employees trace) (hsuffix : start <:+ trace)
    (hunbound : (current employees start).Unbound P call) (hnew : new ∈ creations trace)
    (hold : new ∈ creations start ∨ new.record = none) {record : IdempotencyRecord}
    (hkey : ReceiptUploadService.normalize call.idempotencyKey = some key)
    (hrecord : (current employees trace).findByCompanyIdAndIdempotencyKey P call.companyId key =
      some record) : record.receiptId ≠ new.receipt.id := by
  intro hid
  obtain ⟨new', hnew', hnewRecord, hid'⟩ := hrun.intake_of_record hrecord
  obtain rfl := List.inj_on_of_nodup_map hrun.catalogued.nodup hnew' hnew (hid'.symm.trans hid)
  rcases hold with hold | hnone
  · obtain ⟨-, hcompany, hmatches⟩ := findByCompanyIdAndIdempotencyKey_eq_some hrecord
    have hbound := (hrun.suffix hsuffix).bound_of_intake hold hnewRecord hcompany hmatches
    rw [hunbound key hkey] at hbound
    exact absurd hbound (by simp)
  · rw [hnone] at hnewRecord
    exact absurd hnewRecord (by simp)

theorem Database.exists_record_of_not_unbound {db : Database}
    (hkey : ReceiptUploadService.normalize call.idempotencyKey = some key)
    (h : ¬ db.Unbound P call) :
    ∃ record, db.findByCompanyIdAndIdempotencyKey P call.companyId key = some record := by
  refine Option.ne_none_iff_exists'.mp fun hnone => h fun key' hkey' => ?_
  rw [hkey] at hkey'
  cases hkey'
  exact hnone

/-- A call whose key was bound before it. -/
theorem Accepted.remembered_of_bound (h : Accepted P employees call start s result)
    (hbound : ¬ (current employees start).Unbound P call) :
    Remembered P employees call (current employees start) result.receipt s.trace where
  bound _ key hkey := by
    obtain ⟨hrun, hsuffix⟩ := h.since
    obtain ⟨record, hrecord⟩ := Database.exists_record_of_not_unbound hkey hbound
    exact ⟨record, hrun.bound_later hsuffix hrecord, (h.id_of_bound hkey hrecord).symm⟩
  image hbinds := absurd (.inl hbound) hbinds
  unbound hbinds := absurd (.inl hbound) hbinds

/-- A duplicate leaves the key unbound, since its image was stored before. -/
theorem Duplicate.remembered (h : Duplicate P employees call start s result)
    (hturn : InTurn P call start s) :
    Remembered P employees call (current employees start) result.receipt s.trace := by
  obtain ⟨hstored, new, hnew, hid⟩ := h.intake hturn
  refine ⟨fun hbinds => ?_, fun _ => h.acknowledges, fun _ key record hkey hrecord => ?_⟩
  · rcases hbinds with hbound | ⟨hnone, -⟩
    · exact absurd h.unbound hbound
    · exact absurd hnone hstored
  · have hlater := (creations_suffix h.pending.since).subset hnew
    rw [← hid]
    exact ne_of_unbound h.pending.run h.pending.since h.unbound hlater (.inl hnew) hkey hrecord

/-- A new receipt binds the key, unless the key is blank. -/
theorem Created.remembered (h : Created P employees call start s result)
    (hturn : InTurn P call start s) :
    Remembered P employees call (current employees start) result.receipt s.trace := by
  have himage := h.not_stored hturn
  have hacknowledges := h.acknowledges
  obtain ⟨new, recordedAt, hmem, -, hreceipt, -, -, -, hnewRecord⟩ := h.intake
  refine ⟨fun hbinds key hkey => ?_, fun _ => hacknowledges, fun hnot key record hkey hrecord => ?_⟩
  · rcases hbinds with hbound | ⟨-, hblank⟩
    · exact absurd h.unbound hbound
    · rw [hkey, Option.filter_some, hblank key hkey] at hnewRecord
      refine ⟨_, h.run.bound_of_intake hmem hnewRecord ?_ ?_, by rw [hreceipt]⟩
      · simp [Platform.textEq]
      · simp [Platform.textEq]
  · have hblank : key.isBlank = true := by
      by_contra hblank
      refine hnot (.inr ⟨himage, fun key' hkey' => ?_⟩)
      rw [hkey] at hkey'
      cases hkey'
      simpa using hblank
    have hnone : new.record = none := by simp [hnewRecord, hkey, hblank]
    rw [hreceipt]
    exact ne_of_unbound h.run h.since h.unbound hmem (.inr hnone) hkey hrecord

theorem Accepted.remembered (h : Accepted P employees call start s result)
    (hturn : InTurn P call start s) :
    Remembered P employees call (current employees start) result.receipt s.trace := by
  by_cases hunbound : (current employees start).Unbound P call
  · rcases h with h | h | h
    · exact absurd hunbound (h.not_unbound hturn)
    · exact h.remembered hturn
    · exact h.remembered hturn
  · exact h.remembered_of_bound hunbound

theorem Accepted.acknowledges_of_unbound (h : Accepted P employees call start s result)
    (hturn : InTurn P call start s) (hunbound : (current employees start).Unbound P call) :
    Acknowledges P employees call s.trace result.receipt := by
  rcases h with h | h | h
  · exact absurd hunbound (h.not_unbound hturn)
  · exact h.acknowledges
  · exact h.acknowledges

/-- When a later call under the same key returns the receipt of an earlier one. -/
theorem Remembered.id_eq_iff {receipt : Receipt} {other : UploadCall}
    (h : Remembered P employees call before receipt start)
    (hkey : ReceiptUploadService.normalize call.idempotencyKey = some key)
    (hkey' : ReceiptUploadService.normalize other.idempotencyKey = some key)
    (hcompany : call.companyId = other.companyId)
    (hother : Accepted P employees other start s result) (hturn : InTurn P other start s) :
    receipt.id = result.receipt.id ↔ before.Binds P call ∨
      ((current employees start).Unbound P other ∧
        P.sha256 call.bytes = P.sha256 other.bytes) := by
  obtain ⟨hrun, hsuffix⟩ := hother.since
  by_cases hbinds : before.Binds P call
  · obtain ⟨record, hrecord, hid⟩ := h.bound hbinds key hkey
    rw [hcompany] at hrecord
    exact iff_of_true (hid.symm.trans (hother.id_of_bound hkey' hrecord).symm) (.inl hbinds)
  by_cases hunbound : (current employees start).Unbound P other
  · -- neither call is answered by the key, so each returns the receipt of its image
    have hfirst := (h.image hbinds).later hrun hsuffix
    have hsecond := hother.acknowledges_of_unbound hturn hunbound
    constructor
    · exact fun hid => .inr ⟨hunbound, hfirst.eq_of_id hsecond hid⟩
    · intro hor
      rcases hor with hbound | ⟨-, hdigest⟩
      · exact absurd hbound hbinds
      · obtain ⟨stored, hstored, hstoredCompany, hstoredDigest⟩ := hfirst.stored
        obtain ⟨stored', hstored', hstoredCompany', hstoredDigest'⟩ := hsecond.stored
        refine hrun.eq_of_sameImage hstored hstored' ?_ ?_
        · rw [hcompany] at hstoredCompany
          exact textEq_trans hstoredCompany (textEq_symm hstoredCompany')
        · simp [Platform.textEq, hstoredDigest, hstoredDigest', hdigest]
  · -- the key was bound between the two calls, to another receipt
    obtain ⟨record, hrecord⟩ := Database.exists_record_of_not_unbound hkey' hunbound
    have hid := hother.id_of_bound hkey' hrecord
    rw [← hcompany] at hrecord
    refine iff_of_false (fun heq => ?_) ?_
    · exact h.unbound hbinds key record hkey hrecord (hid.symm.trans heq.symm)
    · intro hor
      rcases hor with hbound | ⟨hnone, -⟩
      · exact hbinds hbound
      · exact hunbound hnone

/-! ## Sequences -/

/-- A call that has been served: the database that it found, and its outcome. -/
structure ServedUpload where
  call : UploadCall
  before : Database
  outcome : Except Failure UploadResult

/-- The receipt that a call under this key has returned. -/
def ServedUpload.returned (key : JString) (served : ServedUpload) : Option Long :=
  if served.call.idempotencyKey = some key then
    match served.outcome with
    | .ok result => some result.receipt.id
    | .error _ => none
  else none

/-- The uploads of one owner, the newest first, one after the other; between and
during them the rest of the system goes on. -/
inductive UploadSequence (P : Platform) (employees : Table Employee) (companyId : JString)
    (ownerId : Option Long) : List ServedUpload → List Commit → Prop
  | nil : UploadSequence P employees companyId ownerId [] []
  | others {served : List ServedUpload} {trace trace' : List Commit} :
      UploadSequence P employees companyId ownerId served trace → Run P employees trace' →
      trace <:+ trace' → UploadSequence P employees companyId ownerId served trace'
  | upload {served : List ServedUpload} {trace : List Commit} {call : UploadCall}
      {outcome : Except Failure UploadResult} {s : UploadState} :
      UploadSequence P employees companyId ownerId served trace → call.companyId = companyId →
      call.ownerId = ownerId → UploadsInTurn P employees trace call outcome s →
      UploadSequence P employees companyId ownerId
        ({ call, before := current employees trace, outcome } :: served) s.trace

/-- The earlier call leaves the key bound, or the key is still unbound before the
later call, which submits the same image. -/
def ServedUpload.Keeps (P : Platform) (earlier later : ServedUpload) : Prop :=
  earlier.before.Binds P earlier.call ∨
    (later.before.Unbound P later.call ∧
      P.sha256 earlier.call.bytes = P.sha256 later.call.bytes)

variable {companyId : JString} {ownerId : Option Long} {served : List ServedUpload}

theorem UploadSequence.run (h : UploadSequence P employees companyId ownerId served trace) :
    Run P employees trace := by
  induction h with
  | nil => exact .nil
  | others _ hrun _ _ => exact hrun
  | upload _ _ _ hupload ih => exact (hupload.uploads.run ih).1

/-- The successful calls of a sequence are remembered. -/
theorem UploadSequence.remembered (h : UploadSequence P employees companyId ownerId served trace) :
    ∀ upload ∈ served, upload.call.companyId = companyId ∧ ∀ result, upload.outcome = .ok result →
      Remembered P employees upload.call upload.before result.receipt trace := by
  induction h with
  | nil => simp
  | others _ hrun hsuffix ih =>
      intro upload hmem
      obtain ⟨hcompany, hremembered⟩ := ih upload hmem
      exact ⟨hcompany, fun result hok => (hremembered result hok).later hrun hsuffix⟩
  | upload hsequence hcompany _ hupload ih =>
      obtain ⟨hrun, hsuffix⟩ := hupload.uploads.run hsequence.run
      intro upload hmem
      rcases List.mem_cons.mp hmem with rfl | hmem
      · refine ⟨hcompany, ?_⟩
        rintro result rfl
        exact (hupload.uploads.accepted hsequence.run).remembered hupload.inTurn
      · obtain ⟨hearlier, hremembered⟩ := ih upload hmem
        exact ⟨hearlier, fun result hok => (hremembered result hok).later hrun hsuffix⟩

theorem ServedUpload.returned_eq_some {upload : ServedUpload} {id : Long}
    (h : upload.returned key = some id) :
    upload.call.idempotencyKey = some key ∧
      ∃ result, upload.outcome = .ok result ∧ result.receipt.id = id := by
  unfold ServedUpload.returned at h
  split at h
  · rename_i hkey
    split at h
    · rename_i result hok
      cases h
      exact ⟨hkey, result, hok, rfl⟩
    · exact absurd h (by simp)
  · exact absurd h (by simp)

/-- Two successful calls under one key return the same receipt iff the key is kept. -/
theorem UploadSequence.id_eq_iff (h : UploadSequence P employees companyId ownerId served trace)
    (hkey : key.isBlank = false) :
    served.Pairwise fun later earlier =>
      ∀ id ∈ earlier.returned key, ∀ id' ∈ later.returned key,
        (id = id' ↔ earlier.Keeps P later) := by
  have hnormalize : ReceiptUploadService.normalize (some key) = some key.trim := by
    simp [ReceiptUploadService.normalize, hkey]
  induction h with
  | nil => exact .nil
  | others _ _ _ ih => exact ih
  | upload hsequence hcompany _ hupload ih =>
      refine .cons (fun earlier hmem id hid id' hid' => ?_) ih
      obtain ⟨hearlierCompany, hremembered⟩ := hsequence.remembered earlier hmem
      obtain ⟨hkey, result, hok, rfl⟩ := ServedUpload.returned_eq_some hid
      obtain ⟨hkey', result', rfl, rfl⟩ := ServedUpload.returned_eq_some hid'
      have haccepted := hupload.uploads.accepted hsequence.run
      exact (hremembered result hok).id_eq_iff (hkey ▸ hnormalize) (hkey' ▸ hnormalize)
        (hearlierCompany.trans hcompany.symm) haccepted hupload.inTurn

/-- All successful calls under a key return one receipt if and only if of any two
of them, the earlier one leaves the key bound, or the key is still unbound before
the later one and both submit the same image. -/
theorem one_receipt_iff (h : UploadSequence P employees companyId ownerId served trace)
    (hkey : key.isBlank = false) :
    (∀ upload ∈ served, ∀ other ∈ served, ∀ id ∈ upload.returned key, ∀ id' ∈ other.returned key,
        id = id') ↔
      (served.filter fun upload => (upload.returned key).isSome).Pairwise fun later earlier =>
        earlier.Keeps P later := by
  have hpairs := h.id_eq_iff hkey
  rw [List.pairwise_filter]
  constructor
  · intro hone
    refine hpairs.imp_of_mem fun hlater hearlier hiff hsome hsome' => ?_
    obtain ⟨id', hid'⟩ := Option.isSome_iff_exists.mp hsome
    obtain ⟨id, hid⟩ := Option.isSome_iff_exists.mp hsome'
    exact (hiff id hid id' hid').mp (hone _ hearlier _ hlater id hid id' hid')
  · intro hkeeps
    have hsame : served.Pairwise fun later earlier =>
        ∀ id ∈ later.returned key, ∀ id' ∈ earlier.returned key, id = id' := by
      refine (hpairs.and hkeeps).imp ?_
      rintro later earlier ⟨hiff, hkept⟩ id hid id' hid'
      have hkept := hkept (Option.isSome_of_mem hid) (Option.isSome_of_mem hid')
      exact ((hiff id' hid' id hid).mpr hkept).symm
    have : Std.Symm fun later earlier : ServedUpload =>
        ∀ id ∈ later.returned key, ∀ id' ∈ earlier.returned key, id = id' :=
      ⟨fun _ _ hsymm id hid id' hid' => (hsymm id' hid' id hid).symm⟩
    refine fun upload hupload other hother => hsame.forall_of_forall ?_ hupload hother
    exact fun _ _ id hid id' hid' => Option.mem_unique hid hid'

namespace Sample

/-- A call that runs alone is served in turn. -/
theorem uploadsInTurn_runUpload {call : UploadCall} {outcome : Except Failure UploadResult}
    (h : (runUpload platform staff trace call).1 = outcome) :
    UploadsInTurn platform staff trace call outcome (runUpload platform staff trace call).2 := by
  subst h
  exact Program.executes_run
    (fun _ => ⟨⟨id, List.suffix_rfl, rfl, rfl⟩, [], rfl, by simp⟩) answers_serve _ _

/-- Serve uploads alone, one after the other. -/
def serveAll : List UploadCall → List ServedUpload × List Commit
  | [] => ([], [])
  | call :: calls =>
      let (served, trace) := serveAll calls
      let (outcome, s) := runUpload platform staff trace call
      ({ call, before := current staff trace, outcome } :: served, s.trace)

theorem uploadSequence_serveAll (calls : List UploadCall)
    (hcalls : ∀ call ∈ calls, call.companyId = company ∧ call.ownerId = some 1) :
    UploadSequence platform staff company (some 1) (serveAll calls).1 (serveAll calls).2 := by
  induction calls with
  | nil => exact .nil
  | cons call calls ih =>
      obtain ⟨hcompany, howner⟩ := hcalls call (by simp)
      exact .upload (ih fun other hother => hcalls other (by simp [hother])) hcompany howner
        (uploadsInTurn_runUpload rfl)

end Sample

open Sample in
/-- A key that is submitted with a known image first is bound to the next new one. -/
theorem serveAll_splits :
    ∃ served trace, UploadSequence platform staff company (some 1) served trace ∧
      JString.isBlank (.ofString "key-2") = false ∧
      ¬ ∀ upload ∈ served, ∀ other ∈ served, ∀ id ∈ upload.returned (.ofString "key-2"),
        ∀ id' ∈ other.returned (.ofString "key-2"), id = id' :=
  ⟨_, _, uploadSequence_serveAll
    [uploadOf "key-2" imageB, uploadOf "key-2" imageA, uploadOf "key-1" imageA] (by decide),
    by decide, by decide +kernel⟩

open Sample in
/-- A key that is submitted with a new image first stays with it. -/
theorem serveAll_keeps :
    ∃ served trace, UploadSequence platform staff company (some 1) served trace ∧
      served.filterMap (ServedUpload.returned (.ofString "key-1")) = [1, 1] ∧
      ∀ upload ∈ served, ∀ other ∈ served, ∀ id ∈ upload.returned (.ofString "key-1"),
        ∀ id' ∈ other.returned (.ofString "key-1"), id = id' := by
  have hsequence := uploadSequence_serveAll [uploadOf "key-1" imageB, uploadOf "key-1" imageA]
    (by decide)
  refine ⟨_, _, hsequence, by decide +kernel, (one_receipt_iff hsequence (by decide)).mpr ?_⟩
  refine List.Pairwise.filter _ (.cons (fun earlier hmem => ?_) (.cons (by simp) .nil))
  obtain rfl := List.mem_singleton.mp hmem
  have hbinds : (current staff []).Binds platform (uploadOf "key-1" imageA) := by
    refine .inr ⟨rfl, fun key hkey => ?_⟩
    cases hkey
    decide
  exact .inl hbinds

end ReceiptReview
