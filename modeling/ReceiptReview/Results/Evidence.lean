import ReceiptReview.Lifecycle.Marks
import ReceiptReview.Results.Finality

/-!
# Evidence

What was submitted is written once, and what the extraction has read should be.
The setter of the proposal has no guard and three operations call it, but each of
them first completes or fails the job of the receipt, and a job leaves the
pending states once.  So a receipt has no proposal while its job is pending
(`Proposed`), and gets it from the operation that ends the job.

It keeps the proposal unless that is read otherwise than it was stored.  A later
correction, decision or duplicate writes the whole row back as it has read it
(`Operation.Rewrites`), and then the proposal on file is no longer the one that
was delivered (`evidence_write_once_iff`).
-/

namespace ReceiptReview

open Java Store ReceiptCase

variable {P : Platform} {employees : Table Employee} {trace earlier : List Commit}
variable {operation : Operation} {x x' : ReceiptCase} {events : List AuditEvent}
variable {commit : Commit} {id : Long}

/-! ## One step -/

/-- The part of a receipt that documents its submission. -/
structure SameEvidence (a b : Receipt) : Prop where
  companyId : b.companyId = a.companyId
  imageSha256 : b.imageSha256 = a.imageSha256
  originalFileName : b.originalFileName = a.originalFileName
  contentType : b.contentType = a.contentType
  fileSize : b.fileSize = a.fileSize
  createdAt : b.createdAt = a.createdAt
  ownerEmployeeId : b.ownerEmployeeId = a.ownerEmployeeId

theorem SameEvidence.trans {a b c : Receipt} (hab : SameEvidence a b) (hbc : SameEvidence b c) :
    SameEvidence a c where
  companyId := hbc.companyId.trans hab.companyId
  imageSha256 := hbc.imageSha256.trans hab.imageSha256
  originalFileName := hbc.originalFileName.trans hab.originalFileName
  contentType := hbc.contentType.trans hab.contentType
  fileSize := hbc.fileSize.trans hab.fileSize
  createdAt := hbc.createdAt.trans hab.createdAt
  ownerEmployeeId := hbc.ownerEmployeeId.trans hab.ownerEmployeeId

theorem ReceiptCase.Step.sameEvidence (h : Step employees operation x events x') :
    SameEvidence x.receipt x'.receipt := by
  cases h <;> exact ⟨rfl, rfl, rfl, rfl, rfl, rfl, rfl⟩

/-- The claim with which an operation ends an extraction, and the data it has read. -/
def Operation.outcome : Operation → Option (ClaimedReceiptJob × Option ReceiptData)
  | completeQualityRejection claim _ _ | failExtraction claim _ _ _ => some (claim, none)
  | completeExtraction claim extraction _ _ _ => some (claim, extraction.data)
  | _ => none

/-- The operation ends the extraction under the claim that owns the job. -/
def Operation.Delivers (operation : Operation) (job : ReceiptExtractionJob)
    (data : Option ReceiptData) : Prop :=
  ∃ claim, operation.outcome = some (claim, data) ∧ claim.receiptId = job.receiptId ∧
    job.isOwnedBy claim.workerId claim.claimToken

theorem not_isFinal_of_owned {job : ReceiptExtractionJob} {workerId claimToken : Option JString}
    (h : job.isOwnedBy workerId claimToken) : ¬ job.status.IsFinal := by
  rw [(ReceiptExtractionJob.isOwnedBy_iff.mp h).1]
  simp [ExtractionJobStatus.IsFinal]

/-- The operation writes back a receipt whose extraction has ended: a correction, a
decision, or the first duplicate of a receipt that has a status. -/
def Operation.Rewrites (operation : Operation) (x : ReceiptCase) : Prop :=
  operation.edits = some x.receipt.id ∨
    (∃ now today, operation = .markDuplicate x.receipt.id now today) ∧
      x.job.duplicateDetected = false ∧ x.receipt.status ≠ none

/-- A receipt that is written back gets the proposal that was read. -/
theorem ReceiptCase.Step.of_rewrites (h : Step employees operation x events x')
    (hrewrites : operation.Rewrites x) :
    operation.outcome = none ∧ x'.receipt.originalData = x.receipt.reread.originalData := by
  rcases hrewrites with hedits | ⟨⟨now, today, hoperation⟩, -, hstatus⟩
  · cases h with
    | corrected | decided => exact ⟨rfl, rfl⟩
    | _ => cases hedits
  · cases h with
    | duplicateDeferred _ hpending => exact absurd hpending hstatus
    | duplicateMarked => exact ⟨rfl, rfl⟩
    | _ => cases hoperation

/-- An operation ends the extraction with its data, or it does not end the
extraction and leaves the proposal or writes back what it has read of it. -/
theorem ReceiptCase.Step.delivers_or_keeps (h : Step employees operation x events x')
    (hreceiptId : x.job.receiptId = x.receipt.id) :
    (∃ data, operation.Delivers x.job data ∧ ¬ x.job.status.IsFinal ∧ x'.job.status.IsFinal ∧
      x'.receipt.originalData = data) ∨
    (x'.job.status.IsFinal → x.job.status.IsFinal) ∧
      (x'.receipt.originalData = x.receipt.originalData ∨
        operation.Rewrites x ∧ x'.receipt.originalData = x.receipt.reread.originalData) := by
  cases h with
  | claimed hclaim =>
      -- the job moves on without an outcome, and the receipt is not written
      rw [(ReceiptExtractionJob.claim_eq_ok hclaim).2]
      exact .inr ⟨by simp [ReceiptExtractionJob.flushed, ExtractionJobStatus.IsFinal], .inl rfl⟩
  | released _ hrelease =>
      rw [(ReceiptExtractionJob.releaseClaim_eq_ok hrelease).2]
      exact .inr ⟨by simp [ReceiptExtractionJob.flushed, ExtractionJobStatus.IsFinal], .inl rfl⟩
  | recovered hrecover =>
      rw [(ReceiptExtractionJob.recoverExpiredLease_eq_ok hrecover).2.2]
      exact .inr ⟨by simp [ReceiptExtractionJob.flushed, ExtractionJobStatus.IsFinal], .inl rfl⟩
  | retryScheduled _ _ hretry =>
      rw [(ReceiptExtractionJob.scheduleRetry_eq_ok hretry).2]
      exact .inr ⟨by simp [ReceiptExtractionJob.flushed, ExtractionJobStatus.IsFinal], .inl rfl⟩
  | qualityRejected _ hreceipt hcomplete | extracted _ hreceipt hcomplete =>
      obtain ⟨howned, rfl⟩ := ReceiptExtractionJob.complete_eq_ok hcomplete
      exact .inl ⟨_, ⟨_, rfl, hreceipt.trans hreceiptId.symm, howned⟩, not_isFinal_of_owned howned,
        .inl rfl, rfl⟩
  | failed _ hreceipt hfail =>
      obtain ⟨howned, rfl⟩ := ReceiptExtractionJob.fail_eq_ok hfail
      exact .inl ⟨_, ⟨_, rfl, hreceipt.trans hreceiptId.symm, howned⟩, not_isFinal_of_owned howned,
        .inr rfl, rfl⟩
  | duplicateDeferred => exact .inr ⟨fun h => h, .inl rfl⟩
  | duplicateMarked hflag hstatus =>
      exact .inr ⟨fun h => h, .inr ⟨.inr ⟨⟨_, _, rfl⟩, hflag, by simp [hstatus]⟩, rfl⟩⟩
  | corrected | decided => exact .inr ⟨fun h => h, .inr ⟨.inl rfl, rfl⟩⟩

/-! ## Whole runs -/

/-- A pending job has not brought a proposal. -/
def ReceiptCase.Proposed (x : ReceiptCase) : Prop :=
  ¬ x.job.status.IsFinal → x.receipt.originalData = none

theorem ReceiptCase.Step.proposed (h : Step employees operation x events x')
    (hreceiptId : x.job.receiptId = x.receipt.id) (hx : x.Proposed) : x'.Proposed := by
  intro hpending
  rcases h.delivers_or_keeps hreceiptId with ⟨data, -, -, hfinal, -⟩ | ⟨-, hkept⟩
  · exact absurd hfinal hpending
  · have hnone : x.receipt.originalData = none :=
      hx fun hfinal => hpending ((h.final_job hfinal).symm ▸ hfinal)
    rcases hkept with hkept | ⟨-, hkept⟩
    · rw [hkept, hnone]
    · rw [hkept, Receipt.originalData_reread, hnone, Option.map_none]

theorem Run.proposed (h : Run P employees trace) (hx' : (current employees trace).HasCase x') :
    x'.Proposed := by
  induction trace generalizing x' with
  | nil => exact absurd hx'.receipt (by simp [current, Database.initial, Database.receiptRow])
  | cons commit trace ih =>
      rcases h.created_or_moved hx' with
        ⟨_, _, _, _, _, _, _, _, hoperation, rfl, -⟩ | ⟨x, hx, ⟨rfl, -⟩ | hstep⟩
      · -- an upload proposes nothing
        have hpermitted := h.head.2.2.1
        rw [hoperation] at hpermitted
        obtain ⟨call, contentType, now, rfl, -, -⟩ := hpermitted
        exact fun _ => rfl
      · exact ih h.head.1 hx
      · exact hstep.proposed hx.receiptId (ih h.head.1 hx)

theorem ReceiptCase.Evolves.sameEvidence (h : Evolves P employees x x') :
    SameEvidence x.receipt x'.receipt := by
  induction h with
  | refl => exact ⟨rfl, rfl, rfl, rfl, rfl, rfl, rfl⟩
  | step _ _ hstep ih => exact ih.trans hstep.sameEvidence

/-- The commit moves the job of the receipt to one of the final states. -/
structure Commit.Ends (commit : Commit) (id : Long) : Prop where
  before : ∃ job, commit.before.findJobByReceiptId id = some job ∧ ¬ job.status.IsFinal
  after : ∃ job, commit.after.findJobByReceiptId id = some job ∧ job.status.IsFinal

/-- The commit ends the extraction of a receipt without a proposal, and writes the data that
was delivered under the claim that owns the job. -/
structure Commit.Proposes (commit : Commit) (id : Long) (receipt receipt' : Receipt) : Prop where
  ends : commit.Ends id
  before : receipt.originalData = none
  delivered : ∃ job, commit.before.findJobByReceiptId id = some job ∧
    commit.operation.Delivers job receipt'.originalData

/-- Whenever an operation writes the receipt back, the proposal has been read as it is stored. -/
def ProposalReadsBack (employees : Table Employee) (trace : List Commit) (id : Long) : Prop :=
  ∀ commit earlier, commit :: earlier <:+ trace → ∀ x, (current employees earlier).HasCase x →
    x.receipt.id = id → commit.operation.Rewrites x →
    x.receipt.reread.originalData = x.receipt.originalData

theorem ProposalReadsBack.suffix (h : ProposalReadsBack employees trace id)
    (hearlier : earlier <:+ trace) : ProposalReadsBack employees earlier id :=
  fun commit before hsuffix => h commit before (hsuffix.trans hearlier)

/-- It is enough that all stored data reads back. -/
theorem ReadsBack.proposal (h : ReadsBack trace id) : ProposalReadsBack employees trace id := by
  intro commit earlier hsuffix x hx hid _
  have hearlier : earlier <:+ trace := (List.suffix_cons _ _).trans hsuffix
  rw [(h.suffix hearlier).reread hx hid]

/-- A commit ends the extraction of a stored receipt and writes the data that
it has delivered, or it leaves the proposal or writes back what it has read of it. -/
theorem Run.proposes_or_keeps (h : Run P employees (commit :: trace))
    (hx : (current employees trace).HasCase x) (hx' : commit.after.HasCase x')
    (hid : x'.receipt.id = x.receipt.id) :
    commit.Proposes x.receipt.id x.receipt x'.receipt ∨
      ¬ commit.Ends x.receipt.id ∧ (x'.receipt.originalData = x.receipt.originalData ∨
        commit.operation.Rewrites x ∧
          x'.receipt.originalData = x.receipt.reread.originalData) := by
  obtain ⟨hrun, hbefore, -, -, -⟩ := h.head
  have hpaired' : commit.after.Paired := h.current_refines.paired
  have hjob : commit.before.findJobByReceiptId x.receipt.id = some x.job :=
    hbefore ▸ hrun.current_refines.paired.findJobByReceiptId hx
  have hjob' : commit.after.findJobByReceiptId x.receipt.id = some x'.job :=
    hid ▸ hpaired'.findJobByReceiptId hx'
  -- the receipt and its job are the same case before and after the commit
  have hends : commit.Ends x.receipt.id ↔ ¬ x.job.status.IsFinal ∧ x'.job.status.IsFinal := by
    constructor
    · intro hends
      obtain ⟨job, hfound, hpending⟩ := hends.before
      obtain ⟨job', hfound', hfinal⟩ := hends.after
      cases hjob.symm.trans hfound
      cases hjob'.symm.trans hfound'
      exact ⟨hpending, hfinal⟩
    · intro hstatus
      exact ⟨⟨x.job, hjob, hstatus.1⟩, ⟨x'.job, hjob', hstatus.2⟩⟩
  obtain ⟨y, hy, hmoves⟩ := h.exists_moved hx
  obtain rfl := hpaired'.unique hy hx' (hmoves.sameReceipt.id.trans hid.symm)
  rcases hmoves with ⟨rfl, -⟩ | hstep
  · exact .inr ⟨fun hnow => (hends.mp hnow).1 (hends.mp hnow).2, .inl rfl⟩
  · rcases hstep.delivers_or_keeps hx.receiptId with
      ⟨data, hdelivers, hpending, hfinal, rfl⟩ | ⟨hkept, hdata⟩
    · exact .inl ⟨hends.mpr ⟨hpending, hfinal⟩, hrun.proposed hx hpending, x.job, hjob, hdelivers⟩
    · exact .inr ⟨fun hnow => (hends.mp hnow).1 (hkept (hends.mp hnow).2), hdata⟩

/-- A new receipt has no proposal. -/
theorem Run.originalData_of_new (h : Run P employees (commit :: trace)) {receipt' : Receipt}
    (hreceipt : commit.before.receiptRow id = none)
    (hreceipt' : commit.after.receiptRow id = some receipt') : receipt'.originalData = none := by
  have hpaired' : commit.after.Paired := h.current_refines.paired
  obtain ⟨x', hx', rfl⟩ := hpaired'.of_receipt hreceipt'
  rcases h.created_or_moved hx' with
    ⟨_, _, _, _, _, _, _, _, hoperation, rfl, -⟩ | ⟨x, hx, hmoves⟩
  · have hpermitted := h.head.2.2.1
    rw [hoperation] at hpermitted
    obtain ⟨call, contentType, now, rfl, -, -⟩ := hpermitted
    rfl
  · have hid : x.receipt.id = id :=
      hmoves.sameReceipt.id.symm.trans (Database.id_of_receiptRow hreceipt')
    have hstored : commit.before.receiptRow id = some x.receipt := by
      rw [h.head.2.1, ← hid]
      exact hx.receipt
    exact absurd (hreceipt.symm.trans hstored) (by simp)

/-- A job that has ended stays so. -/
theorem Run.final_later (h : Run P employees trace) (hearlier : earlier <:+ trace)
    (hends : ∃ job, (current employees earlier).findJobByReceiptId id = some job ∧
      job.status.IsFinal) :
    ∃ job, (current employees trace).findJobByReceiptId id = some job ∧ job.status.IsFinal := by
  obtain ⟨job, hjob, hfinal⟩ := hends
  obtain ⟨hstored, hreceiptId⟩ := Database.findJob_of_findJobByReceiptId hjob
  obtain ⟨x, hx, rfl⟩ := (h.suffix hearlier).current_refines.paired.of_job hstored
  obtain ⟨x', hx', hevolves⟩ := h.evolves hearlier hx
  have hid : x'.receipt.id = id :=
    calc x'.receipt.id
        = x.receipt.id := hevolves.sameReceipt.id
      _ = x.job.receiptId := hx.receiptId.symm
      _ = id := hreceiptId
  refine ⟨x'.job, ?_, (hevolves.final_job hfinal).symm ▸ hfinal⟩
  rw [← hid]
  exact h.current_refines.paired.findJobByReceiptId hx'

/-- An extraction ends at most once. -/
theorem Run.ends_unique (h : Run P employees trace) {commit' : Commit} {earlier' : List Commit}
    (hsuffix : commit :: earlier <:+ trace) (hsuffix' : commit' :: earlier' <:+ trace)
    (hends : commit.Ends id) (hends' : commit'.Ends id) :
    commit :: earlier = commit' :: earlier' := by
  -- of two ends one would come before the other, which would find a final job
  have hnot : ∀ {commit commit' : Commit} {earlier earlier' : List Commit},
      commit' :: earlier' <:+ trace → commit :: earlier <:+ earlier' → commit.Ends id →
      commit'.Ends id → False := by
    intro commit commit' earlier earlier' hlater hbetween hends hends'
    obtain ⟨hrun, hbefore, -, -, -⟩ := (h.suffix hlater).head
    obtain ⟨job', hjob', hfinal⟩ := hrun.final_later hbetween hends.after
    obtain ⟨job, hjob, hpending⟩ := hends'.before
    rw [hbefore, hjob'] at hjob
    cases hjob
    exact hpending hfinal
  rcases List.suffix_or_suffix_of_suffix hsuffix hsuffix' with hbetween | hbetween
  · rcases List.suffix_cons_iff.mp hbetween with heq | hbetween
    · exact heq
    · exact (hnot hsuffix' hbetween hends hends').elim
  · rcases List.suffix_cons_iff.mp hbetween with heq | hbetween
    · exact heq.symm
    · exact (hnot hsuffix hbetween hends' hends).elim

/-- As long as the proposal reads back, it stays once the extraction has ended. -/
theorem Run.proposal_kept (h : Run P employees trace)
    (hreads : ProposalReadsBack employees trace id) (hearlier : earlier <:+ trace)
    (hx : (current employees earlier).HasCase x) (hid : x.receipt.id = id)
    (hfinal : x.job.status.IsFinal) :
    ∃ x', (current employees trace).HasCase x' ∧ x'.receipt.id = id ∧ x'.job.status.IsFinal ∧
      x'.receipt.originalData = x.receipt.originalData := by
  induction trace with
  | nil =>
      rw [List.suffix_nil.mp hearlier] at hx
      exact ⟨x, hx, hid, hfinal, rfl⟩
  | cons commit trace ih =>
      rcases List.suffix_cons_iff.mp hearlier with rfl | hearlier
      · exact ⟨x, hx, hid, hfinal, rfl⟩
      · obtain ⟨y, hy, hyid, hyfinal, hkept⟩ :=
          ih h.head.1 (hreads.suffix (List.suffix_cons _ _)) hearlier
        obtain ⟨z, hz, hmoves⟩ := h.exists_moved hy
        have hzid := hmoves.sameReceipt.id
        refine ⟨z, hz, hzid.trans hyid, ?_, ?_⟩
        · rcases hmoves with ⟨rfl, -⟩ | hstep
          · exact hyfinal
          · exact (hstep.final_job hyfinal).symm ▸ hyfinal
        · rw [← hkept]
          rcases h.proposes_or_keeps hy hz hzid with hproposes | ⟨-, hsame | ⟨hrewrites, hread⟩⟩
          · -- the extraction does not end twice
            obtain ⟨job, hjob, hpending⟩ := hproposes.ends.before
            rw [h.head.2.1, h.head.1.current_refines.paired.findJobByReceiptId hy] at hjob
            cases hjob
            exact absurd hyfinal hpending
          · exact hsame
          · rw [hread]
            exact hreads commit trace List.suffix_rfl y hy hyid hrewrites

/-- A commit that writes the receipt back gives it the proposal that was read. -/
theorem Run.rewritten (h : Run P employees (commit :: trace))
    (hx : (current employees trace).HasCase x) (hrewrites : commit.operation.Rewrites x) :
    ∃ x', commit.after.HasCase x' ∧ x'.receipt.id = x.receipt.id ∧
      commit.operation.outcome = none ∧
      x'.receipt.originalData = x.receipt.reread.originalData := by
  have hpaired := h.head.1.current_refines.paired
  have hwritten : ∀ {y y' : ReceiptCase}, (current employees trace).HasCase y →
      y.receipt.id = x.receipt.id → commit.after.HasCase y' →
      Step employees commit.operation y (eventsFor y.receipt.id commit.changes.events) y' →
      ∃ x', commit.after.HasCase x' ∧ x'.receipt.id = x.receipt.id ∧
        commit.operation.outcome = none ∧
        x'.receipt.originalData = x.receipt.reread.originalData := by
    intro y y' hy hid hy' hstep
    obtain rfl := hpaired.unique hy hx hid
    exact ⟨y', hy', hstep.sameReceipt.id, hstep.of_rewrites hrewrites⟩
  rcases hrewrites with hedits | ⟨⟨now, today, hoperation⟩, hflag, -⟩
  · obtain ⟨y, y', hy, hid, hy', hstep⟩ := h.step_of_edits hedits
    exact hwritten hy hid hy' hstep
  · obtain ⟨y, hy, hid, ⟨hflagged, -, -⟩ | ⟨-, y', hy', -, hstep⟩⟩ := h.marked hoperation
    · obtain rfl := hpaired.unique hy hx hid
      exact absurd (hflag.symm.trans hflagged) (by simp)
    · exact hwritten hy hid hy' hstep

/-! ## Written once -/

/-- In the run, what documents the submission of the receipt never changes.  A new receipt
has no proposal; a commit changes the proposal only if it ends the extraction, which happens
at most once, and the proposal stays for the rest of the run. -/
structure EvidenceOnce (employees : Table Employee) (trace : List Commit) (id : Long) : Prop where
  documents : ∀ earlier, earlier <:+ trace → ∀ receipt,
    (current employees earlier).receiptRow id = some receipt →
    ∃ receipt', (current employees trace).receiptRow id = some receipt' ∧
      SameEvidence receipt receipt'
  proposal : ∀ commit earlier, commit :: earlier <:+ trace → ∀ receipt',
    commit.after.receiptRow id = some receipt' →
    commit.before.receiptRow id = none ∧ receipt'.originalData = none ∨
    ∃ receipt, commit.before.receiptRow id = some receipt ∧
      (commit.Proposes id receipt receipt' ∨
        ¬ commit.Ends id ∧ receipt'.originalData = receipt.originalData)
  once : ∀ commit earlier commit' earlier', commit :: earlier <:+ trace →
    commit' :: earlier' <:+ trace → commit.Ends id → commit'.Ends id →
    commit :: earlier = commit' :: earlier'
  kept : ∀ commit earlier, commit :: earlier <:+ trace → commit.Ends id →
    ∃ receipt receipt', commit.after.receiptRow id = some receipt ∧
      (current employees trace).receiptRow id = some receipt' ∧
      receipt'.originalData = receipt.originalData

theorem Run.evidenceOnce (h : Run P employees trace)
    (hreads : ProposalReadsBack employees trace id) : EvidenceOnce employees trace id where
  documents := by
    intro earlier hearlier receipt hreceipt
    obtain ⟨x, x', -, rfl, hreceipt', hevolves⟩ := h.evolves_of_receipt hearlier hreceipt
    exact ⟨x'.receipt, hreceipt', hevolves.sameEvidence⟩
  proposal := by
    intro commit earlier hsuffix receipt' hreceipt'
    have hthen := h.suffix hsuffix
    obtain ⟨hrun, hbefore, -⟩ := hthen.head
    -- a new receipt has no proposal yet
    cases hreceipt : commit.before.receiptRow id with
    | none => exact .inl ⟨rfl, hthen.originalData_of_new hreceipt hreceipt'⟩
    | some receipt =>
        have hpaired' : commit.after.Paired := hthen.current_refines.paired
        obtain ⟨x, hx, rfl⟩ := hrun.current_refines.paired.of_receipt (hbefore ▸ hreceipt)
        obtain ⟨x', hx', rfl⟩ := hpaired'.of_receipt hreceipt'
        have hid : x.receipt.id = id := Database.id_of_receiptRow hreceipt
        refine .inr ⟨x.receipt, rfl, ?_⟩
        rcases hthen.proposes_or_keeps hx hx'
          ((Database.id_of_receiptRow hreceipt').trans hid.symm) with
          hproposes | ⟨hends, hsame | ⟨hrewrites, hread⟩⟩
        · exact .inl (hid ▸ hproposes)
        · exact .inr ⟨hid ▸ hends, hsame⟩
        · exact .inr ⟨hid ▸ hends, hread.trans (hreads commit earlier hsuffix x hx hid hrewrites)⟩
  once := fun _ _ _ _ hsuffix hsuffix' hends hends' => h.ends_unique hsuffix hsuffix' hends hends'
  kept := by
    intro commit earlier hsuffix hends
    -- what the job has delivered at its end is kept from then on
    obtain ⟨job, hjob, hfinal⟩ := hends.after
    have hpaired : commit.after.Paired := (h.suffix hsuffix).current_refines.paired
    obtain ⟨hstored, hreceiptId⟩ := Database.findJob_of_findJobByReceiptId hjob
    obtain ⟨x, hx, rfl⟩ := hpaired.of_job hstored
    have hid : x.receipt.id = id := hx.receiptId.symm.trans hreceiptId
    obtain ⟨x', hx', hid', -, hkept⟩ := h.proposal_kept hreads hsuffix hx hid hfinal
    exact ⟨x.receipt, x'.receipt, hid ▸ hx.receipt, hid' ▸ hx'.receipt, hkept⟩

/-- The evidence of a receipt is written once in a run if and only if, whenever an operation
writes the receipt back, its proposal has been read as it is stored. -/
theorem evidence_write_once_iff (hrun : Run P employees trace) (id : Long) :
    EvidenceOnce employees trace id ↔ ProposalReadsBack employees trace id := by
  refine ⟨fun honce => ?_, hrun.evidenceOnce⟩
  intro commit earlier hsuffix x hx hid hrewrites
  have hthen := hrun.suffix hsuffix
  obtain ⟨x', hx', hid', houtcome, hread⟩ := hthen.rewritten hx hrewrites
  have hbefore : commit.before.receiptRow id = some x.receipt := by
    rw [hthen.head.2.1, ← hid]
    exact hx.receipt
  have hafter : commit.after.receiptRow id = some x'.receipt := by
    rw [← hid, ← hid']
    exact hx'.receipt
  rcases honce.proposal commit earlier hsuffix x'.receipt hafter with
    ⟨hnone, -⟩ | ⟨receipt, hreceipt, hproposes | ⟨-, hsame⟩⟩
  · exact absurd (hbefore.symm.trans hnone) (by simp)
  · -- what writes the receipt back ends no extraction
    obtain ⟨_, -, _, hdelivers, -⟩ := hproposes.delivered
    exact absurd (houtcome.symm.trans hdelivers) (by simp)
  · cases hbefore.symm.trans hreceipt
    exact hread.symm.trans hsame

open Sample in
/-- The approved receipt of the sample run still has the evidence of its submission. -/
theorem approvalTrace_evidence : EvidenceOnce staff approvalTrace 1 :=
  (evidence_write_once_iff approvalTrace_run 1).mpr (ReadsBack.proposal (by decide))

/-! ## A proposal that is rewritten -/

namespace Sample

/-- An extraction reads a shop name of one control character, and the image is submitted
again. -/
def rewrittenOperations : List Operation :=
  [intakeOf (uploadOf "key-1" imageA) 1 1 0,
    claimAll 1 "token",
    .completeExtraction (firstClaim 1 "token") ⟨some controlData, [], []⟩ 2 0 2,
    .markDuplicate 1 3 0]

def rewrittenTrace : List Commit := (replay platform staff [] rewrittenOperations).getD []

theorem rewrittenTrace_run : Run platform staff rewrittenTrace := by
  refine run_of_replay rewrittenOperations .nil ?_ rfl
  simp only [rewrittenOperations, List.forall_mem_cons]
  exact ⟨intakeOf_permitted .., trivial, trivial, trivial, by simp⟩

end Sample

open Sample in
/-- The duplicate writes another proposal than the extraction has delivered. -/
theorem rewrittenTrace_altered :
    ∃ trace, Run platform staff trace ∧ ¬ EvidenceOnce staff trace 1 := by
  refine ⟨rewrittenTrace, rewrittenTrace_run, fun honce => ?_⟩
  obtain ⟨completion, earlier, htrace⟩ : ∃ completion earlier,
      rewrittenTrace.tail = completion :: earlier := ⟨_, _, rfl⟩
  have hsuffix : completion :: earlier <:+ rewrittenTrace := htrace ▸ List.tail_suffix _
  obtain ⟨rfl, rfl⟩ := List.cons.inj htrace
  obtain ⟨receipt, receipt', hreceipt, hreceipt', hkept⟩ := honce.kept _ _ hsuffix
    ⟨⟨_, rfl, by decide +kernel⟩, ⟨_, rfl, .inl rfl⟩⟩
  cases hreceipt
  cases hreceipt'
  exact absurd hkept (by decide +kernel)

end ReceiptReview
