import ReceiptReview.Lifecycle.Creations
import ReceiptReview.System.Uploads

/-!
# What an upload call returns

A call ends in one of three ways (`Accepted`): it replays the receipt to which
its key is bound, it returns the stored receipt of its image, or it creates a
receipt.  The proof follows the program.  As long as the call has not accepted
anything, it has committed no intake, and every lookup of its key has found
nothing or a receipt of somebody else (`Pending`); this is also how the call
stands when it throws the exception for a conflict, so the handler of that
exception starts from it again.
-/

namespace ReceiptReview

open Java Store ReceiptCase Program

variable {P : Platform} {employees : Table Employee} {call : UploadCall}
variable {start trace : List Commit} {s s' : UploadState}

/-! ## The key of a call -/

/-- The key of the call is bound to this receipt. -/
def Database.BoundTo (P : Platform) (db : Database) (call : UploadCall) (receipt : Receipt) :
    Prop :=
  ∃ key record, ReceiptUploadService.normalize call.idempotencyKey = some key ∧
    db.findByCompanyIdAndIdempotencyKey P call.companyId key = some record ∧
    db.receiptRow record.receiptId = some receipt

/-- The key of the call is not bound. -/
def Database.Unbound (P : Platform) (db : Database) (call : UploadCall) : Prop :=
  ∀ key, ReceiptUploadService.normalize call.idempotencyKey = some key →
    db.findByCompanyIdAndIdempotencyKey P call.companyId key = none

/-- The key of the call is bound to no receipt of the caller. -/
def Database.NotReplayed (P : Platform) (db : Database) (call : UploadCall) : Prop :=
  ∀ receipt, db.BoundTo P call receipt → receipt.ownerEmployeeId ≠ call.ownerId

/-! ## The three ways to end -/

/-- What the call knows before it has accepted anything. -/
structure Pending (P : Platform) (employees : Table Employee) (call : UploadCall)
    (start : List Commit) (s : UploadState) : Prop where
  run : Run P employees s.trace
  since : start <:+ s.trace
  own : creations s.own = []
  lookups : ∀ db ∈ s.keyLookups, db.NotReplayed P call

/-- The call has replayed the receipt to which its key was bound at some moment. -/
structure Replayed (P : Platform) (employees : Table Employee) (call : UploadCall)
    (start : List Commit) (s : UploadState) (result : UploadResult) : Prop where
  run : Run P employees s.trace
  own : creations s.own = []
  found : ∃ moment receipt earlier, start <:+ moment ∧ moment <:+ s.trace ∧
    (current employees moment).BoundTo P call receipt ∧ SameReceipt receipt result.receipt ∧
    receipt.ownerEmployeeId = call.ownerId ∧ s.keyLookups = current employees moment :: earlier ∧
    ∀ db ∈ earlier, db.NotReplayed P call
  created : result.created = false

/-- The call has returned the receipt that its image had at some moment. -/
structure Duplicate (P : Platform) (employees : Table Employee) (call : UploadCall)
    (start : List Commit) (s : UploadState) (result : UploadResult) : Prop where
  pending : Pending P employees call start s
  unbound : (current employees start).Unbound P call
  found : ∃ moment receipt, start <:+ moment ∧ moment <:+ s.trace ∧
    (current employees moment).findByCompanyIdAndImageSha256 P call.companyId
      (P.sha256 call.bytes) = some receipt ∧ receipt.ownerEmployeeId = call.ownerId ∧
    result.receipt.id = receipt.id ∧ result.receipt.imageSha256 = receipt.imageSha256
  created : result.created = false

/-- The call has created a receipt, and bound its key unless it is blank. -/
structure Created (P : Platform) (employees : Table Employee) (call : UploadCall)
    (start : List Commit) (s : UploadState) (result : UploadResult) : Prop where
  run : Run P employees s.trace
  since : start <:+ s.trace
  unbound : (current employees start).Unbound P call
  lookups : ∀ db ∈ s.keyLookups, db.NotReplayed P call
  intake : ∃ new recordedAt, new ∈ creations s.trace ∧ creations s.own = [new] ∧
    result.receipt = new.receipt ∧ new.receipt.companyId = call.companyId ∧
    new.receipt.imageSha256 = P.sha256 call.bytes ∧
    new.receipt.ownerEmployeeId = call.ownerId ∧
    new.record =
      ((ReceiptUploadService.normalize call.idempotencyKey).filter fun key => !key.isBlank).map
        fun key => { companyId := call.companyId, idempotencyKey := key,
                     receiptId := new.receipt.id, createdAt := recordedAt }
  created : result.created = true

def Accepted (P : Platform) (employees : Table Employee) (call : UploadCall)
    (start : List Commit) (s : UploadState) (result : UploadResult) : Prop :=
  Replayed P employees call start s result ∨ Duplicate P employees call start s result ∨
    Created P employees call start s result

/-- The outcome of a part of the call that accepts the image. -/
def Post (P : Platform) (employees : Table Employee) (call : UploadCall) (start : List Commit) :
    Except Failure UploadResult → UploadState → Prop
  | .ok result, s => Accepted P employees call start s result
  | .error e, s => Run P employees s.trace ∧ start <:+ s.trace ∧
      (e.isConflict = true → Pending P employees call start s)

/-- The outcome of a part of the call that may accept the image. -/
def PostOption (P : Platform) (employees : Table Employee) (call : UploadCall)
    (start : List Commit) : Except Failure (Option UploadResult) → UploadState → Prop
  | .ok none, s => Pending P employees call start s
  | .ok (some result), s => Accepted P employees call start s result
  | .error e, s => Post P employees call start (.error e) s

/-! ## While the rest of the system goes on -/

theorem Pending.others (h : Pending P employees call start s) (hothers : Others P employees s s') :
    Pending P employees call start s' := by
  obtain ⟨hrun, hsuffix, hown, hlookups⟩ := hothers
  exact ⟨hrun h.run, h.since.trans hsuffix, hown ▸ h.own, hlookups ▸ h.lookups⟩

theorem Accepted.others {result : UploadResult} (h : Accepted P employees call start s result)
    (hothers : Others P employees s s') : Accepted P employees call start s' result := by
  have hothers' := hothers
  obtain ⟨hrun, hsuffix, hown, hlookups⟩ := hothers
  rcases h with h | h | h
  · obtain ⟨moment, receipt, earlier, hsince, hupto, hrest⟩ := h.found
    rw [← hlookups] at hrest
    exact .inl ⟨hrun h.run, hown ▸ h.own,
      ⟨moment, receipt, earlier, hsince, hupto.trans hsuffix, hrest⟩, h.created⟩
  · obtain ⟨moment, receipt, hsince, hupto, hrest⟩ := h.found
    exact .inr (.inl ⟨h.pending.others hothers', h.unbound,
      ⟨moment, receipt, hsince, hupto.trans hsuffix, hrest⟩, h.created⟩)
  · obtain ⟨new, recordedAt, hmem, hnew, hrest⟩ := h.intake
    exact .inr (.inr ⟨hrun h.run, h.since.trans hsuffix, h.unbound, hlookups ▸ h.lookups,
      ⟨new, recordedAt, (creations_suffix hsuffix).subset hmem, hown ▸ hnew, hrest⟩, h.created⟩)

theorem Accepted.since {result : UploadResult} (h : Accepted P employees call start s result) :
    Run P employees s.trace ∧ start <:+ s.trace := by
  rcases h with h | h | h
  · obtain ⟨moment, _, _, hsince, hupto, -⟩ := h.found
    exact ⟨h.run, hsince.trans hupto⟩
  · exact ⟨h.pending.run, h.pending.since⟩
  · exact ⟨h.run, h.since⟩

theorem Post.since {outcome : Except Failure UploadResult}
    (h : Post P employees call start outcome s) : Run P employees s.trace ∧ start <:+ s.trace := by
  cases outcome with
  | ok result => exact Accepted.since h
  | error e => exact ⟨h.1, h.2.1⟩

theorem Post.others {outcome : Except Failure UploadResult}
    (h : Post P employees call start outcome s) (hothers : Others P employees s s') :
    Post P employees call start outcome s' := by
  cases outcome with
  | ok result => exact Accepted.others h hothers
  | error e =>
      exact ⟨hothers.1 h.1, h.2.1.trans hothers.2.1,
        fun hconflict => (h.2.2 hconflict).others hothers⟩

/-- A call may fail at any moment, though not with a conflict. -/
theorem post_failed {e : Failure} (hrun : Run P employees s.trace) (hsince : start <:+ s.trace)
    (he : e.isConflict = false) : Post P employees call start (.error e) s := by
  refine ⟨hrun, hsince, fun hconflict => ?_⟩
  rw [he] at hconflict
  exact absurd hconflict (by simp)

/-- A call that has not accepted anything may fail in any way. -/
theorem Pending.post_error (h : Pending P employees call start s) (e : Failure) :
    Post P employees call start (.error e) s :=
  ⟨h.run, h.since, fun _ => h⟩

/-- A request: the system goes on, and then it is answered. -/
theorem wp_ask {request : UploadRequest} {post : Except Failure request.Result → UploadState → Prop}
    (h : ∀ s₁, Others P employees s s₁ →
      (∀ result s₂, Returns P employees s₁ request result s₂ → post (.ok result) s₂) ∧
      ∀ e, e.isConflict = false → post (.error e) s₁) :
    wp (Answers P employees) (Others P employees) (ask request) post s := by
  rw [ask, wp_bind]
  intro s₁ hothers answer s₂ hanswer
  obtain ⟨hreturns, hfails⟩ := h s₁ hothers
  cases answer with
  | ok result => exact hreturns result s₂ hanswer
  | error e =>
      obtain ⟨hconflict, rfl⟩ := hanswer
      exact hfails e hconflict

/-- A request at the start of a part. -/
theorem wp_ask_bind {α : Type} {request : UploadRequest} {next : request.Result → UploadProgram α}
    {post : Except Failure α → UploadState → Prop}
    (h : ∀ s₁, Others P employees s s₁ →
      (∀ result s₂, Returns P employees s₁ request result s₂ →
        wp (Answers P employees) (Others P employees) (next result) post s₂) ∧
      ∀ e, e.isConflict = false → post (.error e) s₁) :
    wp (Answers P employees) (Others P employees) (ask request >>= next) post s := by
  rw [wp_bind]
  exact wp_ask fun s₁ hothers => h s₁ hothers

/-! ## Parts of the program -/

namespace ReceiptUploadService

theorem wp_required {α : Type} {value : Option α} {e : Failure}
    {post : Except Failure α → UploadState → Prop} (hsome : ∀ a, value = some a → post (.ok a) s)
    (hnone : value = none → post (.error e) s) :
    wp (Answers P employees) (Others P employees) (required value e) post s := by
  cases value with
  | none => exact hnone rfl
  | some a => exact hsome a rfl

theorem wp_ensureOwner {receipt : Receipt} {ownerId : Option Long}
    {post : Except Failure Unit → UploadState → Prop}
    (howner : receipt.ownerEmployeeId = ownerId → post (.ok ()) s)
    (hother : receipt.ownerEmployeeId ≠ ownerId →
      ∀ message, post (.error (.receiptConflict message)) s) :
    wp (Answers P employees) (Others P employees) (ensureOwner receipt ownerId) post s := by
  unfold ensureOwner
  by_cases hsame : receipt.ownerEmployeeId = ownerId
  · rw [if_neg (by simpa using hsame)]
    exact howner hsame
  · rw [if_pos hsame]
    exact hother hsame _

theorem wp_existingResult {receipt : Receipt} {idempotentReplay : Bool}
    {post : Except Failure UploadResult → UploadState → Prop}
    (hok : ∀ job s', Others P employees s s' →
      post (.ok { receipt, job, created := false, idempotentReplay }) s')
    (herror : ∀ e s', Others P employees s s' → e.isConflict = false → post (.error e) s') :
    wp (Answers P employees) (Others P employees) (existingResult receipt idempotentReplay) post
      s := by
  unfold existingResult
  refine wp_ask_bind fun s₁ hothers => ⟨?_, fun e he => herror e s₁ hothers he⟩
  intro found s₂ hanswer
  obtain ⟨-, rfl⟩ := hanswer
  rw [wp_bind]
  exact wp_required (fun job _ => hok job s₂ hothers) fun _ => herror _ s₂ hothers rfl

/-- Looking up a key that is not bound. -/
theorem notReplayed_of_unbound {db : Database} {key : JString}
    (hkey : normalize call.idempotencyKey = some key)
    (hnone : db.findByCompanyIdAndIdempotencyKey P call.companyId key = none) :
    db.NotReplayed P call := by
  intro receipt hreplay
  obtain ⟨key', record, hkey', hrecord, -⟩ := hreplay
  rw [hkey] at hkey'
  cases hkey'
  rw [hnone] at hrecord
  exact absurd hrecord (by simp)

/-- Looking up a key that is bound to a receipt of somebody else. -/
theorem notReplayed_of_bound {db : Database} {key : JString} {record : IdempotencyRecord}
    {bound : Receipt} (hkey : normalize call.idempotencyKey = some key)
    (hrecord : db.findByCompanyIdAndIdempotencyKey P call.companyId key = some record)
    (hbound : db.receiptRow record.receiptId = some bound)
    (hother : bound.ownerEmployeeId ≠ call.ownerId) : db.NotReplayed P call := by
  intro receipt hreplay
  obtain ⟨key', record', hkey', hrecord', hreceipt⟩ := hreplay
  rw [hkey] at hkey'
  cases hkey'
  rw [hrecord] at hrecord'
  cases hrecord'
  rw [hbound] at hreceipt
  cases hreceipt
  exact hother

/-- The key is bound: the call returns that receipt, or it is somebody else's. -/
theorem wp_replay {key : JString} {record : IdempotencyRecord}
    (h : Pending P employees call start s) (hkey : normalize call.idempotencyKey = some key)
    (hrecord : (current employees s.trace).findByCompanyIdAndIdempotencyKey P call.companyId key =
      some record) :
    wp (Answers P employees) (Others P employees)
      (do
        let receipt ← findReceipt record.receiptId
        ensureOwner receipt call.ownerId
        let result ← existingResult receipt true
        return some result)
      (fun outcome s => PostOption P employees call start outcome s ∧ outcome ≠ .ok none)
      { s with keyLookups := current employees s.trace :: s.keyLookups } := by
  obtain ⟨bound, hbound⟩ := h.run.receipt_of_record hrecord
  have hboundTo : (current employees s.trace).BoundTo P call bound :=
    ⟨key, record, hkey, hrecord, hbound⟩
  rw [wp_bind]
  refine wp_ask_bind fun s₁ hothers =>
    ⟨?_, fun e he => ⟨post_failed (hothers.1 h.run) (h.since.trans hothers.2.1) he, by simp⟩⟩
  intro found s₂ hanswer
  obtain ⟨rfl, rfl⟩ := hanswer
  obtain ⟨hrun, hsuffix, hown, hlookups⟩ := hothers
  have hrun := hrun h.run
  -- the receipt may have changed since the lookup, but not its owner and its image
  obtain ⟨receipt, hreceipt, hkept⟩ := hrun.stored_later hsuffix hbound
  have hsame : SameReceipt bound receipt.reread := ⟨hkept.id, hkept.ownerEmployeeId,
    hkept.companyId, hkept.imageSha256⟩
  have hfound : (current employees s₂.trace).findReceipt record.receiptId = some receipt.reread :=
    Database.findReceipt_of_receiptRow hreceipt
  refine wp_required (fun found hsome => ?_) fun hnone => ?_
  swap
  · rw [hfound] at hnone
    exact absurd hnone (by simp)
  rw [hfound] at hsome
  cases hsome
  show wp _ _ _ _ _
  rw [wp_bind]
  refine wp_ensureOwner (fun howner => ?_) fun hother message =>
    ⟨Pending.post_error ?_ _, by simp⟩
  · show wp _ _ _ _ _
    rw [wp_bind]
    have hsince := h.since.trans hsuffix
    refine wp_existingResult (fun job s₃ hothers => ⟨.inl ?_, by simp⟩) fun e s₃ hothers he =>
      ⟨post_failed (hothers.1 hrun) (hsince.trans hothers.2.1) he, by simp⟩
    obtain ⟨hrun', hsuffix', hown', hlookups'⟩ := hothers
    refine ⟨hrun' hrun, ?_, ⟨s.trace, bound, s.keyLookups, h.since, hsuffix.trans hsuffix',
      hboundTo, hsame, hsame.ownerEmployeeId.symm.trans howner, hlookups'.trans hlookups,
      h.lookups⟩, rfl⟩
    rw [hown', hown]
    exact h.own
  · -- a conflict, which the caller may handle by starting again
    refine ⟨hrun, h.since.trans hsuffix, hown ▸ h.own, ?_⟩
    rw [hlookups]
    refine List.forall_mem_cons.mpr ⟨notReplayed_of_bound hkey hrecord hbound ?_, h.lookups⟩
    rwa [← hsame.ownerEmployeeId]

theorem wp_findIdempotentReplay (h : Pending P employees call start s) :
    wp (Answers P employees) (Others P employees)
      (findIdempotentReplay call.companyId (normalize call.idempotencyKey) call.ownerId)
      (fun outcome s => PostOption P employees call start outcome s ∧
        (outcome = .ok none → (current employees start).Unbound P call)) s := by
  cases hkey : normalize call.idempotencyKey with
  | none =>
      refine ⟨h, fun _ key hsome => ?_⟩
      rw [hkey] at hsome
      exact absurd hsome (by simp)
  | some key =>
      refine wp_ask_bind fun s₁ hothers =>
        ⟨?_, fun e _ => ⟨(h.others hothers).post_error e, by simp⟩⟩
      intro found s₂ hanswer
      obtain ⟨rfl, rfl⟩ := hanswer
      have h₁ := h.others hothers
      cases hfound : (current employees s₁.trace).findByCompanyIdAndIdempotencyKey P call.companyId
          key with
      | none =>
          refine ⟨⟨h₁.run, h₁.since, h₁.own, ?_⟩, fun _ key' hsome => ?_⟩
          · exact List.forall_mem_cons.mpr ⟨notReplayed_of_unbound hkey hfound, h₁.lookups⟩
          · rw [hkey] at hsome
            cases hsome
            -- a key that is bound at the start is still bound now
            by_contra hbound
            obtain ⟨record, hrecord⟩ := Option.ne_none_iff_exists'.mp hbound
            rw [h₁.run.bound_later h₁.since hrecord] at hfound
            exact absurd hfound (by simp)
      | some record =>
          refine wp_mono (wp_replay h₁ hkey hfound) ?_
          exact fun outcome s' hpost => ⟨hpost.1, fun hnone => absurd hnone hpost.2⟩

/-- The image of the call was stored at this moment, as this receipt. -/
def HasImage (P : Platform) (employees : Table Employee) (call : UploadCall)
    (start : List Commit) (s : UploadState) (receipt : Receipt) : Prop :=
  ∃ moment, start <:+ moment ∧ moment <:+ s.trace ∧
    (current employees moment).findByCompanyIdAndImageSha256 P call.companyId
      (P.sha256 call.bytes) = some receipt

theorem wp_findProcessedDuplicate (h : Pending P employees call start s)
    (hunbound : (current employees start).Unbound P call) :
    wp (Answers P employees) (Others P employees)
      (findProcessedDuplicate call.companyId (P.sha256 call.bytes) call.ownerId)
      (PostOption P employees call start) s := by
  unfold findProcessedDuplicate
  refine wp_ask_bind fun s₁ hothers => ⟨?_, fun e _ => (h.others hothers).post_error e⟩
  intro found s₂ hanswer
  obtain ⟨rfl, rfl⟩ := hanswer
  have h₁ := h.others hothers
  cases hfound : (current employees s₂.trace).findByCompanyIdAndImageSha256 P call.companyId
      (P.sha256 call.bytes) with
  | none => exact h₁
  | some receipt =>
      show wp _ _ _ _ _
      rw [wp_bind]
      refine wp_ensureOwner (fun howner => ?_) fun _ message => h₁.post_error _
      refine wp_ask_bind fun s₃ hothers => ⟨?_, fun e _ => (h₁.others hothers).post_error e⟩
      intro job s₄ hanswer
      obtain ⟨-, rfl⟩ := hanswer
      have h₂ := h₁.others hothers
      cases job with
      | none => exact h₂
      | some job =>
          -- only a duplicate that is already flagged is answered without the lock
          by_cases hflag : job.duplicateDetected = true
          · simp only [hflag, if_true]
            exact .inr (.inl ⟨h₂, hunbound,
              ⟨s₂.trace, receipt, h₁.since, hothers.2.1, hfound, howner, rfl, rfl⟩, rfl⟩)
          · simp only [hflag]
            exact h₂

/-- Marking a stored receipt commits no intake, and returns that receipt. -/
theorem returns_markDuplicate {existing receipt : Receipt} (hrun : Run P employees s.trace)
    {moment : List Commit} (hmoment : moment <:+ s.trace)
    (hexisting : (current employees moment).findReceipt existing.id = some existing)
    (hreturns : Returns P employees s (.markDuplicate existing.id) receipt s') :
    Run P employees s'.trace ∧ s.trace <:+ s'.trace ∧ creations s'.own = creations s.own ∧
      s'.keyLookups = s.keyLookups ∧ receipt.id = existing.id ∧
      receipt.imageSha256 = existing.imageSha256 := by
  obtain ⟨now, today, snapshot, hsnapshot, changes, after, hbody, hcommit, rfl⟩ := hreturns
  have hpermitted : (Operation.markDuplicate existing.id now today).Permitted P employees := trivial
  have hnext := Run.commit hrun hpermitted hsnapshot hbody hcommit
  have hcreated : changes.created = none := by
    by_contra hcreated
    obtain ⟨new, hnew⟩ := Option.ne_none_iff_exists'.mp hcreated
    obtain ⟨_, _, _, _, _, _, _, _, hoperation, -⟩ := created_of_body hbody hnew
    cases hoperation
  simp only [Operation.body, replyWith_eq_ok] at hbody
  obtain ⟨result, hresult, hreply⟩ := hbody
  cases hreply
  obtain ⟨stored, _, hstored, -, hid, hsha, -⟩ :=
    ReceiptPersistenceService.markDuplicate_eq_ok hresult
  have hstoredId : stored.id = existing.id := Database.id_of_receiptRow hstored
  obtain ⟨earlier, hearlier, rfl⟩ := mem_snapshots_iff.mp hsnapshot
  obtain ⟨found, hfound, rfl⟩ := Database.findReceipt_eq_some.mp hexisting
  -- the snapshot that was read and the moment of the lookup are both in the past
  obtain ⟨now₁, hnow₁, hsame₁⟩ := hrun.stored_later hearlier hstored
  obtain ⟨now₂, hnow₂, hsame₂⟩ := hrun.stored_later hmoment hfound
  rw [hnow₁] at hnow₂
  cases hnow₂
  refine ⟨hnext, List.suffix_cons _ _, ?_, rfl, hid.trans hstoredId, hsha.trans ?_⟩
  · simp [creations, UploadState.committed, hcreated]
  · rw [← hsame₁.imageSha256, hsame₂.imageSha256]
    rfl

theorem wp_acceptDuplicate {existing : Receipt} (h : Pending P employees call start s)
    (hunbound : (current employees start).Unbound P call)
    (hexisting : HasImage P employees call start s existing) :
    wp (Answers P employees) (Others P employees) (acceptDuplicate existing call.ownerId)
      (Post P employees call start) s := by
  obtain ⟨moment, hsince, hupto, himage⟩ := hexisting
  unfold acceptDuplicate
  rw [wp_bind]
  refine wp_ensureOwner (fun howner => ?_) fun _ message => h.post_error _
  refine wp_ask_bind fun s₁ hothers => ⟨?_, fun e _ => (h.others hothers).post_error e⟩
  intro receipt s₂ hreturns
  have h₁ := h.others hothers
  have hstored := (findByCompanyIdAndImageSha256_eq_some himage).1
  obtain ⟨hrun, hsuffix, hown, hlookups, hid, hsha⟩ :=
    returns_markDuplicate h₁.run (hupto.trans hothers.2.1) hstored hreturns
  have h₂ : Pending P employees call start s₂ :=
    ⟨hrun, h₁.since.trans hsuffix, hown.trans h₁.own, hlookups ▸ h₁.lookups⟩
  refine wp_existingResult (fun job s₃ hothers' => ?_) fun e s₃ hothers' _ =>
    (h₂.others hothers').post_error e
  exact .inr (.inl ⟨h₂.others hothers', hunbound, ⟨moment, existing, hsince,
    (hupto.trans hothers.2.1).trans (hsuffix.trans hothers'.2.1), himage, howner, hid, hsha⟩, rfl⟩)

/-- The image is stored now: the call returns its receipt, or it is somebody else's. -/
theorem hasImage_now (h : Pending P employees call start s) {receipt : Receipt}
    (hfound : (current employees s.trace).findByCompanyIdAndImageSha256 P call.companyId
      (P.sha256 call.bytes) = some receipt) : HasImage P employees call start s receipt :=
  ⟨s.trace, h.since, List.suffix_rfl, hfound⟩

theorem wp_resolveConstraintConflict (h : Pending P employees call start s)
    (hunbound : (current employees start).Unbound P call) :
    wp (Answers P employees) (Others P employees)
      (resolveConstraintConflict call.companyId (P.sha256 call.bytes)
        (normalize call.idempotencyKey) call.ownerId) (Post P employees call start) s := by
  unfold resolveConstraintConflict
  rw [wp_bind]
  refine wp_mono (wp_findIdempotentReplay h) ?_
  intro outcome s₁ hpost
  obtain ⟨hpost, -⟩ := hpost
  rcases outcome with e | _ | replay
  · exact hpost
  · refine wp_ask_bind fun s₂ hothers =>
      ⟨?_, fun e _ => (Pending.others hpost hothers).post_error e⟩
    intro found s₃ hanswer
    obtain ⟨rfl, rfl⟩ := hanswer
    have h₂ := Pending.others hpost hothers
    rw [wp_bind]
    refine wp_required (fun existing hexisting => ?_) fun _ => h₂.post_error _
    exact wp_acceptDuplicate h₂ hunbound (hasImage_now h₂ hexisting)
  · exact hpost

/-- Storing the receipt commits one intake, with the key of the call. -/
theorem returns_createQueued (h : Pending P employees call start s) {imageStorageKey : JString}
    {contentType : Option JString} {now : Instant} {pair : Receipt × ReceiptExtractionJob}
    (hreturns : Returns P employees s
      (.createQueued
        (acceptedReceipt call.companyId (P.sha256 call.bytes) call.fileName contentType
          call.bytes.length call.ownerId now)
        imageStorageKey (normalize call.idempotencyKey)
        [uploadedEvent (P.sha256 call.bytes) call.fileName contentType call.bytes.length
          call.ownerId now])
      pair s')
    (hunbound : (current employees start).Unbound P call) :
    Created P employees call start s'
      { receipt := pair.1, job := pair.2, created := true, idempotentReplay := false } := by
  obtain ⟨receiptId, jobId, createdAt, recordedAt, snapshot, hsnapshot, changes, after, hbody,
    hcommit, rfl⟩ := hreturns
  have hpermitted : (Operation.createQueued
      (acceptedReceipt call.companyId (P.sha256 call.bytes) call.fileName contentType
        call.bytes.length call.ownerId now)
      imageStorageKey (normalize call.idempotencyKey)
      [uploadedEvent (P.sha256 call.bytes) call.fileName contentType call.bytes.length
        call.ownerId now] receiptId jobId createdAt recordedAt).Permitted P employees :=
    ⟨call, contentType, now, rfl, rfl, rfl⟩
  have hnext := Run.commit h.run hpermitted hsnapshot hbody hcommit
  -- the rows and the record that the transaction stores
  simp only [Operation.body, replyWith_eq_ok] at hbody
  obtain ⟨result, hresult, hreply⟩ := hbody
  obtain ⟨new, hchanges, -, hpair, hreceipt, hrecord⟩ := wellFormed_createQueued hpermitted hresult
  have hresultPair : pair.1 = result.1 := by
    obtain ⟨receipt, job⟩ := result
    exact (Reply.created.inj hreply).1
  refine ⟨hnext, h.since.trans (List.suffix_cons _ _), hunbound, h.lookups,
    ⟨new, recordedAt, ?_, ?_, hresultPair.trans hpair, ?_⟩, rfl⟩
  · simp [creations, UploadState.committed, hchanges]
  · have hown := h.own
    simp only [creations, UploadState.committed, hchanges, List.filterMap_cons] at hown ⊢
    rw [hown]
  · rw [hrecord, hreceipt]
    exact ⟨rfl, rfl, rfl, rfl⟩

theorem wp_createReceipt (h : Pending P employees call start s)
    (hunbound : (current employees start).Unbound P call) {imageStorageKey : JString}
    {contentType : Option JString} {now : Instant} :
    wp (Answers P employees) (Others P employees)
      (createReceipt call.companyId (P.sha256 call.bytes) imageStorageKey
        (normalize call.idempotencyKey)
        (acceptedReceipt call.companyId (P.sha256 call.bytes) call.fileName contentType
          call.bytes.length call.ownerId now)
        (uploadedEvent (P.sha256 call.bytes) call.fileName contentType call.bytes.length
          call.ownerId now) call.ownerId) (Post P employees call start) s := by
  unfold createReceipt
  rw [wp_tryCatch]
  refine wp_ask_bind fun s₁ hothers => ⟨fun pair s₂ hreturns => ?_, fun e _ => ?_⟩
  · exact .inr (.inr (returns_createQueued (h.others hothers) hreturns hunbound))
  · -- a unique constraint was violated: somebody else was faster
    cases e with
    | dataIntegrityViolation => exact wp_resolveConstraintConflict (h.others hothers) hunbound
    | _ => exact (h.others hothers).post_error _

theorem wp_acceptWhileLocked (h : Pending P employees call start s) {contentType : Option JString} :
    wp (Answers P employees) (Others P employees)
      (acceptWhileLocked call.companyId (normalize call.idempotencyKey) call.fileName contentType
        call.bytes (P.sha256 call.bytes) call.ownerId) (Post P employees call start) s := by
  unfold acceptWhileLocked
  rw [wp_bind]
  refine wp_mono (wp_findIdempotentReplay h) ?_
  intro outcome s₁ hpost
  obtain ⟨hpost, hnone⟩ := hpost
  rcases outcome with e | _ | replay
  · exact hpost
  · have hunbound := hnone rfl
    refine wp_ask_bind fun s₂ hothers =>
      ⟨?_, fun e _ => (Pending.others hpost hothers).post_error e⟩
    intro found s₃ hanswer
    obtain ⟨rfl, rfl⟩ := hanswer
    have h₂ := Pending.others hpost hothers
    cases hfound : (current employees s₃.trace).findByCompanyIdAndImageSha256 P call.companyId
        (P.sha256 call.bytes) with
    | some existing => exact wp_acceptDuplicate h₂ hunbound (hasImage_now h₂ hfound)
    | none =>
        refine wp_ask_bind fun s₄ hothers => ⟨?_, fun e _ => (h₂.others hothers).post_error e⟩
        rintro now s₅ rfl
        have h₃ := h₂.others hothers
        refine wp_ask_bind fun s₆ hothers => ⟨?_, fun e _ => (h₃.others hothers).post_error e⟩
        rintro imageStorageKey s₇ rfl
        exact wp_createReceipt (h₃.others hothers) hunbound
  · exact hpost

/-- The lock may fail to be acquired, and its release may fail. -/
theorem wp_execute {companyId imageSha256 : JString} {action : UploadProgram UploadResult}
    (h : Pending P employees call start s)
    (haction : ∀ s', Pending P employees call start s' →
      wp (Answers P employees) (Others P employees) action (Post P employees call start) s') :
    wp (Answers P employees) (Others P employees)
      (RedisDuplicateReceiptLock.execute companyId imageSha256 action)
      (Post P employees call start) s := by
  unfold RedisDuplicateReceiptLock.execute
  refine wp_ask_bind fun s₁ hothers => ⟨?_, fun e _ => (h.others hothers).post_error e⟩
  rintro outcome s₂ rfl
  have h₁ := h.others hothers
  cases outcome with
  | interrupted | timedOut => exact h₁.post_error _
  | acquired =>
      rw [wp_tryFinally]
      refine wp_mono (haction _ h₁) fun outcome s₃ hpost => ?_
      refine wp_ask_bind fun s₄ hothers =>
        ⟨?_, fun e he => post_failed (hothers.1 hpost.since.1) (hpost.since.2.trans hothers.2.1) he⟩
      rintro released s₅ rfl
      exact hpost.others hothers

/-- After a conflict the call still returns a duplicate that has been processed. -/
theorem wp_convergence {exception : Failure} (h : Post P employees call start (.error exception) s)
    (hunbound : (current employees start).Unbound P call) :
    wp (Answers P employees) (Others P employees)
      (match exception with
      | .receiptConflict message => do
          let found ← findProcessedDuplicate call.companyId (P.sha256 call.bytes) call.ownerId
          required found (.receiptConflict message)
      | exception => Program.throw exception) (Post P employees call start) s := by
  cases exception with
  | receiptConflict message =>
      show wp _ _ _ _ _
      rw [wp_bind]
      refine wp_mono (wp_findProcessedDuplicate (h.2.2 rfl) hunbound) ?_
      intro outcome s₁ hpost
      rcases outcome with e | _ | result
      · exact hpost
      · exact Pending.post_error hpost _
      · exact hpost
  | _ => exact h

theorem wp_upload (h : Pending P employees call start s) :
    wp (Answers P employees) (Others P employees) (upload P call) (Post P employees call start)
      s := by
  unfold upload
  split
  · exact h.post_error _
  · cases ReceiptImageFormat.detect call.bytes with
    | error e => exact h.post_error e
    | ok format =>
        rw [wp_bind, wp_ofExcept]
        show wp _ _ _ _ _
        rw [wp_bind]
        refine wp_mono (wp_findIdempotentReplay h) ?_
        intro outcome s₁ hpost
        obtain ⟨hpost, hnone⟩ := hpost
        rcases outcome with e | _ | replay
        · exact hpost
        · have hunbound := hnone rfl
          show wp _ _ _ _ _
          rw [wp_bind]
          refine wp_mono (wp_findProcessedDuplicate hpost hunbound) ?_
          intro outcome s₂ hpost
          rcases outcome with e | _ | processedDuplicate
          · exact hpost
          · -- neither lookup has answered: the image is accepted under the lock
            show wp _ _ _ _ _
            rw [wp_tryCatch]
            refine wp_mono (wp_execute hpost fun s' h' => wp_acceptWhileLocked h') ?_
            intro outcome s₃ hpost
            rcases outcome with e | result
            · exact wp_convergence hpost hunbound
            · exact hpost
          · exact hpost
        · exact hpost

end ReceiptUploadService

theorem Uploads.post {outcome : Except Failure UploadResult} (hrun : Run P employees trace)
    (h : Uploads P employees trace call outcome s) : Post P employees call trace outcome s := by
  have hpending : Pending P employees call trace (.start trace) :=
    ⟨hrun, List.suffix_rfl, rfl, by simp [UploadState.start]⟩
  exact wp_iff.mp (ReceiptUploadService.wp_upload hpending) _ _ h

/-- A call leaves a run, whatever its outcome. -/
theorem Uploads.run {outcome : Except Failure UploadResult} (hrun : Run P employees trace)
    (h : Uploads P employees trace call outcome s) :
    Run P employees s.trace ∧ trace <:+ s.trace :=
  (h.post hrun).since

/-- A successful call has ended in one of the three ways. -/
theorem Uploads.accepted {result : UploadResult} (hrun : Run P employees trace)
    (h : Uploads P employees trace call (.ok result) s) :
    Accepted P employees call trace s result :=
  h.post hrun

end ReceiptReview
