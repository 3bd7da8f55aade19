import ReceiptReview.Lifecycle.Runs

/-!
# The duplicate flag

The flag of the job alone decides whether a duplicate has been handled.  It is
never cleared, and it is set together with the one event that records it, so the
log of a receipt tells how the flag stands (`Reaches.duplicate_events`).  A
committed `markDuplicate` finds the flag set and writes nothing, or takes the
case of its receipt one step (`Run.marked`).
-/

namespace ReceiptReview

open Java Store ReceiptCase ReceiptPersistenceService ReceiptCommandService

variable {P : Platform} {employees : Table Employee} {trace : List Commit} {commit : Commit}
variable {operation : Operation} {x x' : ReceiptCase} {events log : List AuditEvent}

/-- One, if the flag of the job is set. -/
def ReceiptCase.duplicates (x : ReceiptCase) : ℕ :=
  if x.job.duplicateDetected then 1 else 0

theorem decidedAction_ne_duplicateDetected (decision : ReviewDecision) :
    decidedAction decision ≠ .duplicateDetected := by
  cases decision <;> decide

/-- A step sets the flag exactly when it records a duplicate. -/
theorem ReceiptCase.Step.duplicate_events (h : Step employees operation x events x') :
    events.countP (fun event => event.action = .duplicateDetected) + x.duplicates =
      x'.duplicates := by
  -- a step without such an event leaves the flag as it was
  have hquiet : (∀ event ∈ events, event.action ≠ .duplicateDetected) →
      events.countP (fun event => event.action = .duplicateDetected) = 0 := by
    intro hother
    simpa [List.countP_eq_zero] using hother
  cases h with
  | claimed hclaim hactions =>
      rw [hquiet (by simp +contextual [hactions]), Nat.zero_add]
      rw [(ReceiptExtractionJob.claim_eq_ok hclaim).2]
      rfl
  | recovered hrecover hactions =>
      rw [hquiet (by simp +contextual [hactions]), Nat.zero_add]
      rw [(ReceiptExtractionJob.recoverExpiredLease_eq_ok hrecover).2.2]
      rfl
  | released _ hrelease =>
      rw [(ReceiptExtractionJob.releaseClaim_eq_ok hrelease).2]
      exact Nat.zero_add _
  | qualityRejected _ _ hcomplete | extracted _ _ hcomplete =>
      rw [hquiet (by simp [systemEvent]), Nat.zero_add]
      rw [(ReceiptExtractionJob.complete_eq_ok hcomplete).2]
      rfl
  | retryScheduled _ _ hretry =>
      rw [hquiet (by simp [systemEvent]), Nat.zero_add]
      rw [(ReceiptExtractionJob.scheduleRetry_eq_ok hretry).2]
      rfl
  | failed _ _ hfail =>
      rw [hquiet (by simp [systemEvent]), Nat.zero_add]
      rw [(ReceiptExtractionJob.fail_eq_ok hfail).2]
      rfl
  | duplicateDeferred hflag | duplicateMarked hflag =>
      -- the only two steps that record a duplicate set a flag that was not set
      simp [ReceiptCase.duplicates, hflag, deferredEvent, duplicateEvent, systemEvent,
        ReceiptExtractionJob.flushed, ReceiptExtractionJob.markDuplicate]
  | corrected =>
      rw [hquiet (by simp [correctedEvent, employeeEvent]), Nat.zero_add]
      rfl
  | decided =>
      rw [hquiet (by simp [decidedEvent, employeeEvent, decidedAction_ne_duplicateDetected]),
        Nat.zero_add]
      rfl

theorem ReceiptCase.Reaches.duplicate_events (h : Reaches P employees x log) :
    log.countP (fun event => event.action = .duplicateDetected) = x.duplicates := by
  induction h with
  | created hpermitted =>
      obtain ⟨call, contentType, now, -, -, rfl⟩ := hpermitted
      simp [ReceiptUploadService.uploadedEvent, AuditEvent.attachTo, ReceiptCase.duplicates, intake,
        ReceiptExtractionJob.new]
  | step _ _ hstep ih =>
      rw [List.countP_append, ih, Nat.add_comm]
      exact hstep.duplicate_events

/-- The flag is never cleared. -/
theorem ReceiptCase.Step.flagged (h : Step employees operation x events x')
    (hflag : x.job.duplicateDetected = true) : x'.job.duplicateDetected = true := by
  have hevents := h.duplicate_events
  by_contra hcleared
  simp [ReceiptCase.duplicates, hflag, hcleared] at hevents

theorem ReceiptCase.Evolves.flagged (h : Evolves P employees x x')
    (hflag : x.job.duplicateDetected = true) : x'.job.duplicateDetected = true := by
  induction h with
  | refl => exact hflag
  | step _ _ hstep ih => exact hstep.flagged ih

/-- Only the transaction that marks a receipt sets its flag. -/
theorem ReceiptCase.Step.flag_or_mark (h : Step employees operation x events x') :
    x'.job.duplicateDetected = x.job.duplicateDetected ∨
      ∃ now today, operation = .markDuplicate x.receipt.id now today := by
  cases h with
  | claimed hclaim =>
      rw [(ReceiptExtractionJob.claim_eq_ok hclaim).2]
      exact .inl rfl
  | released _ hrelease =>
      rw [(ReceiptExtractionJob.releaseClaim_eq_ok hrelease).2]
      exact .inl rfl
  | recovered hrecover =>
      rw [(ReceiptExtractionJob.recoverExpiredLease_eq_ok hrecover).2.2]
      exact .inl rfl
  | retryScheduled _ _ hretry =>
      rw [(ReceiptExtractionJob.scheduleRetry_eq_ok hretry).2]
      exact .inl rfl
  | qualityRejected _ _ hcomplete | extracted _ _ hcomplete =>
      rw [(ReceiptExtractionJob.complete_eq_ok hcomplete).2]
      exact .inl rfl
  | failed _ _ hfail =>
      rw [(ReceiptExtractionJob.fail_eq_ok hfail).2]
      exact .inl rfl
  | duplicateDeferred | duplicateMarked => exact .inr ⟨_, _, rfl⟩
  | corrected | decided => exact .inl rfl

/-! ## A committed mark -/

/-- The receipt that is marked is returned. -/
theorem sameReceipt_of_markDuplicate {db : Database} {id : Long} {now : Instant}
    {today : LocalDate} {receipt : Receipt} {changes : Database.Changes}
    (h : markDuplicate db id now today = .ok (receipt, changes)) :
    ∃ stored, db.receiptRow id = some stored ∧ SameReceipt stored receipt := by
  simp only [markDuplicate, Outcome.bind_eq_ok, Outcome.orElseThrow_eq_ok,
    Database.findReceipt_eq_some] at h
  obtain ⟨_, ⟨stored, hstored, rfl⟩, job, -, h⟩ := h
  refine ⟨stored, hstored, ?_⟩
  split at h
  · obtain ⟨rfl, -⟩ := Prod.mk.inj (Outcome.pure_eq_ok.mp h)
    exact ⟨rfl, rfl, rfl, rfl⟩
  · split at h
    · obtain ⟨rfl, -⟩ := Prod.mk.inj (Outcome.pure_eq_ok.mp h)
      exact ⟨rfl, rfl, rfl, rfl⟩
    · split at h
      · obtain ⟨rfl, -⟩ := Prod.mk.inj (Outcome.pure_eq_ok.mp h)
        exact ⟨rfl, rfl, rfl, rfl⟩
      · obtain ⟨rfl, -⟩ := Prod.mk.inj (Outcome.pure_eq_ok.mp h)
        exact ⟨rfl, rfl, rfl, rfl⟩

theorem ReceiptCase.Step.of_markDuplicate {id : Long} {now : Instant} {today : LocalDate}
    (h : Step employees (.markDuplicate id now today) x events x') :
    id = x.receipt.id ∧ x.job.duplicateDetected = false ∧ x'.job.duplicateDetected = true := by
  cases h with
  | duplicateDeferred hflag | duplicateMarked hflag => exact ⟨rfl, hflag, rfl⟩

/-- A committed `markDuplicate` has found the flag set and written nothing, or
takes the case of its receipt one step that sets it. -/
theorem Run.marked (h : Run P employees (commit :: trace)) {id : Long} {now : Instant}
    {today : LocalDate} (hoperation : commit.operation = .markDuplicate id now today) :
    ∃ x, (current employees trace).HasCase x ∧ x.receipt.id = id ∧
      (x.job.duplicateDetected = true ∧ commit.after.HasCase x ∧ commit.changes = {} ∨
        x.job.duplicateDetected = false ∧ ∃ x', commit.after.HasCase x' ∧
          x'.job.duplicateDetected = true ∧
          Step employees commit.operation x (eventsFor x.receipt.id commit.changes.events) x') := by
  obtain ⟨hrun, -, -, -, snapshot, hsnapshot, hbody⟩ := h.head
  rw [hoperation] at hbody
  simp only [Operation.body, replyWith_eq_ok] at hbody
  obtain ⟨result, hresult, -⟩ := hbody
  obtain ⟨receipt, job, hreceipt, hjob, -, -, hcase⟩ := markDuplicate_eq_ok hresult
  obtain ⟨moment, hmoment, rfl⟩ := mem_snapshots_iff.mp hsnapshot
  have hthen := (hrun.suffix hmoment).current_refines
  obtain ⟨x₀, hx₀, rfl⟩ := hthen.paired.of_receipt hreceipt
  have hid : x₀.receipt.id = id := Database.id_of_receiptRow hreceipt
  have hjob₀ := hthen.paired.findJobByReceiptId hx₀
  rw [hid, hjob] at hjob₀
  cases hjob₀
  obtain ⟨x, hx, hevolves⟩ := hrun.evolves hmoment hx₀
  have hxid : x.receipt.id = id := hevolves.sameReceipt.id.trans hid
  refine ⟨x, hx, hxid, ?_⟩
  -- an event about the receipt means a step, and a step sets the flag
  have hstepped : (∃ event, event ∈ commit.changes.events ∧ event.receiptId = id) →
      x.job.duplicateDetected = false ∧ ∃ x', commit.after.HasCase x' ∧
        x'.job.duplicateDetected = true ∧
        Step employees commit.operation x (eventsFor x.receipt.id commit.changes.events) x' := by
    intro hevent
    obtain ⟨event, hmem, hevent⟩ := hevent
    rcases h.kept_or_updated hx with ⟨-, hquiet, -⟩ | ⟨hafter, hstep⟩
    · have := List.filter_eq_nil_iff.mp hquiet event hmem
      exact absurd (hevent.trans hxid.symm) (by simpa using this)
    · have hflags := hoperation ▸ hstep
      obtain ⟨-, hfresh, hflagged⟩ := hflags.of_markDuplicate
      exact ⟨hfresh, _, hafter, hflagged, hstep⟩
  rcases hcase with ⟨hflag, hchanges⟩ | ⟨-, -, hchanges⟩ | ⟨hflag, hmarked, -⟩ |
    ⟨-, previous, next, -, -, hchanges⟩
  · left
    refine ⟨hevolves.flagged hflag, ?_, hchanges⟩
    rcases h.kept_or_updated hx with ⟨hafter, -, -⟩ | ⟨-, hstep⟩
    · exact hafter
    · have hfresh := (hoperation ▸ hstep).of_markDuplicate.2.1
      rw [hevolves.flagged hflag] at hfresh
      exact absurd hfresh (by simp)
  · refine .inr (hstepped ⟨deferredEvent x₀.receipt.id now, by simp [hchanges], ?_⟩)
    simpa [deferredEvent, systemEvent] using hid
  · -- the rules report a duplicate only with the flag
    have hflagged := (hthen.reaches hx₀).consistent.flagged hmarked
    rw [hflag] at hflagged
    exact absurd hflagged (by simp)
  · refine .inr (hstepped ⟨duplicateEvent x₀.receipt.id now previous next, by simp [hchanges], ?_⟩)
    simpa [duplicateEvent, systemEvent] using hid

/-- A duplicate of the receipt has been committed. -/
def Marked (trace : List Commit) (id : Long) : Prop :=
  ∃ commit ∈ trace, ∃ now today, commit.operation = .markDuplicate id now today

theorem Marked.of_suffix {earlier : List Commit} {id : Long} (h : Marked earlier id)
    (hsuffix : earlier <:+ trace) : Marked trace id := by
  obtain ⟨commit, hmem, hoperation⟩ := h
  exact ⟨commit, hsuffix.subset hmem, hoperation⟩

/-- After a committed `markDuplicate` the flag of its receipt is set. -/
theorem Run.flagged_of_marked (h : Run P employees trace) {id : Long} (hmarked : Marked trace id)
    (hx : (current employees trace).HasCase x) (hid : x.receipt.id = id) :
    x.job.duplicateDetected = true := by
  obtain ⟨commit, hmem, now, today, hoperation⟩ := hmarked
  obtain ⟨later, earlier, rfl⟩ := List.append_of_mem hmem
  have hsuffix : commit :: earlier <:+ later ++ commit :: earlier := List.suffix_append _ _
  obtain ⟨y, hyid, hy, hflagged⟩ : ∃ y, y.receipt.id = id ∧ commit.after.HasCase y ∧
      y.job.duplicateDetected = true := by
    obtain ⟨y, -, hyid, ⟨hflag, hafter, -⟩ | ⟨-, y', hafter, hflag, hstep⟩⟩ :=
      (h.suffix hsuffix).marked hoperation
    · exact ⟨y, hyid, hafter, hflag⟩
    · exact ⟨y', hstep.sameReceipt.id.trans hyid, hafter, hflag⟩
  obtain ⟨x', hx', hevolves⟩ := h.evolves hsuffix hy
  obtain rfl := h.current_refines.paired.unique hx hx'
    (hid.trans (hevolves.sameReceipt.id.trans hyid).symm)
  exact hevolves.flagged hflagged

/-- A flag that is set was set by a committed `markDuplicate`. -/
theorem Run.marked_of_flagged (h : Run P employees trace)
    (hx : (current employees trace).HasCase x) (hflag : x.job.duplicateDetected = true) :
    Marked trace x.receipt.id := by
  induction trace generalizing x with
  | nil => exact absurd hx.receipt (by simp [current, Database.initial, Database.receiptRow])
  | cons commit trace ih =>
      have hearlier : ∀ {y}, (current employees trace).HasCase y →
          y.job.duplicateDetected = true → Marked (commit :: trace) y.receipt.id :=
        fun hy hyflag => (ih h.head.1 hy hyflag).of_suffix (List.suffix_cons _ _)
      rcases h.created_or_moved hx with ⟨_, _, _, _, _, _, _, _, -, rfl, -⟩ | ⟨y, hy, hmoves⟩
      · exact absurd hflag (by simp [intake, ReceiptExtractionJob.new])
      · rcases hmoves with ⟨rfl, -⟩ | hstep
        · exact hearlier hy hflag
        · rw [hstep.sameReceipt.id]
          rcases hstep.flag_or_mark with hsame | ⟨now, today, hoperation⟩
          · exact hearlier hy (hsame ▸ hflag)
          · exact ⟨commit, List.mem_cons_self, now, today, hoperation⟩

end ReceiptReview
