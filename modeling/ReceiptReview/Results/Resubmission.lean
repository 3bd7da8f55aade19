import ReceiptReview.Lifecycle.Marks
import ReceiptReview.Results.Evidence
import ReceiptReview.Results.Ownership
import ReceiptReview.System.Replay

/-!
# Images that are submitted again

A duplicate is handled at one of two places: in `completeExtraction`, which
reads the flag of the job, or in `markDuplicate`, which evaluates the rules anew
once there is a business status.

* They evaluate different data where the data of the extraction is read
  otherwise than it was stored: `completeExtraction` holds the data that the
  provider has returned, `markDuplicate` what it reads of it.  As long as no
  employee has touched the receipt and the calendar date is the same, that is
  the only difference (`duplicates_commute_iff`).
* They differ where the status does not come from the data.  An image that was
  unreadable has no data, so `markDuplicate` routes it to manual entry and the
  state of the quality inspection is lost (`review_state_kept_iff`).
-/

namespace ReceiptReview

open Java Store ReceiptCase ReceiptCommandService ReceiptPersistenceService ValidationEngine
open ReceiptStatusRouter ReceiptExtractionLifecycleService

variable {P : Platform} {employees : Table Employee} {trace earlier : List Commit}
variable {commit : Commit} {operation : Operation} {x x' : ReceiptCase} {events : List AuditEvent}
variable {id : Long} {today : LocalDate} {data : Option ReceiptData}

/-! ## Duplicates and the extraction -/

/-- The date on which a commit evaluates the rules for a receipt. -/
def Commit.evaluatesRules (commit : Commit) (id : Long) : Option LocalDate :=
  match commit.operation with
  | .completeExtraction claim _ _ today _ => if claim.receiptId = id then some today else none
  | .markDuplicate receiptId _ today =>
      -- a duplicate that is deferred, or handled before, writes no receipt
      if receiptId = id ∧ commit.changes.receipts ≠ [] then some today else none
  | .correctFields _ receiptId _ _ today _ => if receiptId = id then some today else none
  | _ => none

/-- The receipt is what the extraction and the flag of its job make of it. -/
structure ReceiptCase.Extracted (today : LocalDate) (data : Option ReceiptData)
    (x : ReceiptCase) : Prop where
  originalData : x.receipt.originalData = data
  currentData : x.receipt.currentData = data
  ruleResults : x.receipt.ruleResults = validate today data x.job.duplicateDetected
  status : x.receipt.status =
    some (route data (validate today data x.job.duplicateDetected))

theorem isTerminal_route (data : Option ReceiptData) (results : List RuleResult) :
    isTerminal (route data results) = false := by
  rcases route_cases data results with hroute | hroute | hroute <;> simp [hroute, isTerminal]

/-- An extracted receipt stays extracted in every step of the system, or its first
duplicate makes it one with the data that is read, where that is evaluated on the same
date. -/
theorem ReceiptCase.Step.extracted_or_marked (h : Step employees operation x events x')
    (hx : x.Consistent) (hextracted : x.Extracted today data)
    (hhuman : operation.edits ≠ some x.receipt.id)
    (hdate : ∀ id now day, operation = .markDuplicate id now day → x'.receipt ≠ x.receipt →
      day = today) :
    x'.job.duplicateDetected = x.job.duplicateDetected ∧ x'.Extracted today data ∨
      x.job.duplicateDetected = false ∧ x'.job.duplicateDetected = true ∧
        x'.Extracted today (data.map ReceiptData.rebuild) := by
  obtain ⟨horiginal, hcurrent, hrules, hstatus⟩ := hextracted
  rcases h.of_ended (hx.ended hstatus) with ⟨now, day, hmark, -⟩ | ⟨hedits, -⟩
  · cases h with
    | duplicateDeferred _ hpending =>
        rw [hstatus] at hpending
        exact absurd hpending (by simp)
    | duplicateMarked hflag hprevious hnext =>
        -- the status comes from routing, so it is routed again
        obtain rfl := hdate _ _ _ rfl (fun hsame => absurd (congrArg Receipt.version hsame) (by
          simp [Receipt.flushed, Receipt.updateData]))
        have hread : x.receipt.reread.currentData = data.map ReceiptData.rebuild := by
          rw [Receipt.currentData_reread, hcurrent]
        rw [hstatus, Option.some.injEq] at hprevious
        rw [← hprevious, isTerminal_route, hread] at hnext
        rw [hnext, hread]
        exact .inr ⟨hflag, rfl, congrArg (Option.map ReceiptData.rebuild) horiginal, rfl, rfl, rfl⟩
    | _ => cases hmark
  · exact absurd hedits hhuman

/-- The extraction itself, told of the duplicates so far. -/
theorem ReceiptCase.Step.extracted_of_completeExtraction {claim : ClaimedReceiptJob}
    {extraction : ExtractionResult} {extractedAt completedAt : Instant}
    (h : Step employees (.completeExtraction claim extraction extractedAt today completedAt) x
      events x') : claim.receiptId = x.receipt.id ∧ x'.Extracted today extraction.data := by
  cases h with
  | extracted _ hid hcomplete hrules =>
      rw [(ReceiptExtractionJob.complete_eq_ok hcomplete).2]
      subst hrules
      exact ⟨hid, rfl, rfl, rfl, rfl⟩

/-- A commit that changes the receipt of a case writes a receipt. -/
theorem receipts_ne_nil {changes : Database.Changes}
    (h : (x.updated changes).receipt ≠ x.receipt) : changes.receipts ≠ [] := by
  intro hnone
  exact h (by simp [ReceiptCase.updated, hnone])

/-- What a run that evaluates the rules for the receipt on one date, and in which no
employee touches it, makes of its extraction: the data is the extracted one, unless the
first duplicate came later. -/
theorem Run.extracted (h : Run P employees trace) {extracting : Commit}
    (hextracting : extracting :: earlier <:+ trace) {claim : ClaimedReceiptJob}
    {extraction : ExtractionResult} {extractedAt completedAt : Instant} {day : LocalDate}
    (hoperation : extracting.operation =
      .completeExtraction claim extraction extractedAt day completedAt)
    (hclaim : claim.receiptId = id)
    (hdates : ∀ commit ∈ trace, ∀ day, commit.evaluatesRules id = some day → day = today)
    (hhuman : ∀ commit ∈ trace, commit.operation.edits ≠ some id) :
    ∃ x, (current employees trace).HasCase x ∧ x.receipt.id = id ∧
      (x.Extracted today extraction.data ∧
          (x.job.duplicateDetected = true → Marked earlier id) ∨
        x.Extracted today (extraction.data.map ReceiptData.rebuild) ∧
          x.job.duplicateDetected = true ∧ ¬ Marked earlier id) := by
  induction trace with
  | nil => exact absurd (hextracting.subset List.mem_cons_self) (by simp)
  | cons commit trace ih =>
      rcases List.suffix_cons_iff.mp hextracting with heq | hsuffix
      · -- the extraction itself: the date of its rules is the one of the run
        obtain ⟨rfl, rfl⟩ := List.cons.inj heq
        obtain ⟨x, hx, -, -, hafter, hstep, -⟩ := h.step_of_claim?
          (show extracting.operation.claim? = some claim by rw [hoperation]; rfl)
        obtain ⟨hid, hextracted⟩ := (hoperation ▸ hstep).extracted_of_completeExtraction
        obtain rfl := hdates _ List.mem_cons_self day (by
          simp [Commit.evaluatesRules, hoperation, hclaim])
        have hsame := hstep.sameReceipt.id.trans (hid.symm.trans hclaim)
        refine ⟨_, hafter, hsame, .inl ⟨hextracted, ?_⟩⟩
        intro hflag
        rcases hstep.flag_or_mark with hsame | ⟨now, marked, hmark⟩
        · rw [← hclaim, hid]
          exact h.head.1.marked_of_flagged hx (hsame ▸ hflag)
        · exact absurd (hoperation.symm.trans hmark) (by simp)
      · obtain ⟨x, hx, hid, hstate⟩ := ih h.head.1 hsuffix
          (fun c hc => hdates c (List.mem_cons_of_mem _ hc))
          (fun c hc => hhuman c (List.mem_cons_of_mem _ hc))
        rcases h.kept_or_updated hx with ⟨hafter, -, -⟩ | ⟨hafter, hstep⟩
        · exact ⟨x, hafter, hid, hstate⟩
        · have hnext := fun {data : Option ReceiptData} (hextracted : x.Extracted today data) =>
            hstep.extracted_or_marked (h.head.1.consistent hx) hextracted
              (hid ▸ hhuman commit List.mem_cons_self) fun marked now day hmark hchanged =>
                hdates commit List.mem_cons_self day (by
                  have hmarkedId : marked = id := (hmark ▸ hstep).of_markDuplicate.1.trans hid
                  simp [Commit.evaluatesRules, hmark, hmarkedId, receipts_ne_nil hchanged])
          refine ⟨_, hafter, hstep.sameReceipt.id.trans hid, ?_⟩
          -- a later step keeps the data, or it is the one that sets the flag
          rcases hstate with ⟨hextracted, hmarked⟩ | ⟨hextracted, hflag, hnot⟩
          · rcases hnext hextracted with ⟨hsame, hextracted'⟩ | ⟨hflag, hflag', hextracted'⟩
            · exact .inl ⟨hextracted', fun hflag => hmarked (hsame ▸ hflag)⟩
            · -- the first duplicate, so none came before the extraction
              refine .inr ⟨hextracted', hflag', fun hbefore => ?_⟩
              have hset := h.head.1.flagged_of_marked
                (hbefore.of_suffix ((List.suffix_cons _ _).trans hsuffix)) hx hid
              exact absurd (hflag.symm.trans hset) (by simp)
          · rcases hnext hextracted with ⟨hsame, hextracted'⟩ | ⟨hunset, -, -⟩
            · exact .inr ⟨hextracted', hsame.trans hflag, hnot⟩
            · exact absurd (hunset.symm.trans hflag) (by simp)

/-- The receipt has the data of the extraction, its rules and status are those of a
duplicate, and the job is flagged. -/
structure DuplicateOf (today : LocalDate) (data : Option ReceiptData) (receipt : Receipt)
    (job : ReceiptExtractionJob) : Prop where
  originalData : receipt.originalData = data
  currentData : receipt.currentData = data
  ruleResults : receipt.ruleResults = validate today data true
  status : receipt.status = some (route data (validate today data true))
  duplicateDetected : job.duplicateDetected = true

theorem ReceiptCase.Extracted.duplicateOf (h : x.Extracted today data)
    (hflag : x.job.duplicateDetected = true) : DuplicateOf today data x.receipt x.job := by
  obtain ⟨horiginal, hcurrent, hrules, hstatus⟩ := h
  rw [hflag] at hrules hstatus
  exact ⟨horiginal, hcurrent, hrules, hstatus, hflag⟩

/-- Wherever the submissions stand among the claims, retries, recoveries and the outcome,
once the extraction and at least one of them have committed, the receipt is the duplicate
of the extraction, if and only if the extracted data reads back as it is or a duplicate was
committed before the extraction. -/
theorem duplicates_commute_iff (hrun : Run P employees trace) {extracting : Commit}
    (hextracting : extracting :: earlier <:+ trace) {claim : ClaimedReceiptJob}
    {extraction : ExtractionResult} {extractedAt completedAt : Instant} {day : LocalDate}
    (hoperation : extracting.operation =
      .completeExtraction claim extraction extractedAt day completedAt)
    (hclaim : claim.receiptId = id)
    (hdates : ∀ commit ∈ trace, ∀ day, commit.evaluatesRules id = some day → day = today)
    (hhuman : ∀ commit ∈ trace, commit.operation.edits ≠ some id)
    (hduplicate : ∃ commit ∈ trace, ∃ now day, commit.operation = .markDuplicate id now day) :
    (∃ receipt job, (current employees trace).receiptRow id = some receipt ∧
      (current employees trace).findJobByReceiptId id = some job ∧
      DuplicateOf today extraction.data receipt job) ↔
    extraction.data.map ReceiptData.rebuild = extraction.data ∨
      ∃ commit ∈ earlier, ∃ now day, commit.operation = .markDuplicate id now day := by
  obtain ⟨x, hx, hid, hstate⟩ :=
    hrun.extracted hextracting hoperation hclaim hdates hhuman
  have hflag := hrun.flagged_of_marked hduplicate hx hid
  have hreceipt := hx.receipt
  have hjob := hrun.current_refines.paired.findJobByReceiptId hx
  rw [hid] at hreceipt hjob
  have hfinal : ∀ {receipt job}, (current employees trace).receiptRow id = some receipt →
      (current employees trace).findJobByReceiptId id = some job →
      receipt = x.receipt ∧ job = x.job :=
    fun hrow hfound => ⟨Option.some.inj (hrow.symm.trans hreceipt),
      Option.some.inj (hfound.symm.trans hjob)⟩
  rcases hstate with ⟨hextracted, hmarked⟩ | ⟨hextracted, -, hnot⟩
  · -- the proposal is the extracted data, and the mark came first
    exact ⟨fun _ => .inr (hmarked hflag),
      fun _ => ⟨x.receipt, x.job, hreceipt, hjob, hextracted.duplicateOf hflag⟩⟩
  · -- the first mark came later and has written the data back
    constructor
    · intro hduplicates
      obtain ⟨receipt, job, hrow, hfound, hduplicateOf⟩ := hduplicates
      obtain ⟨rfl, rfl⟩ := hfinal hrow hfound
      exact .inl (hextracted.originalData.symm.trans hduplicateOf.originalData)
    · intro hcondition
      have hsame := hcondition.resolve_right hnot
      rw [hsame] at hextracted
      exact ⟨x.receipt, x.job, hreceipt, hjob, hextracted.duplicateOf hflag⟩

namespace Sample

/-- An image is submitted again before and after its extraction. -/
def resubmittedOperations : List Operation :=
  [intakeOf (uploadOf "key-1" imageA) 1 1 0,
    claimAll 1 "token",
    .markDuplicate 1 2 5,
    .completeExtraction (firstClaim 1 "token") ⟨some goodData, [], []⟩ 3 0 3,
    .markDuplicate 1 4 7]

def resubmittedTrace : List Commit := (replay platform staff [] resubmittedOperations).getD []

theorem resubmittedTrace_run : Run platform staff resubmittedTrace := by
  refine run_of_replay resubmittedOperations .nil ?_ rfl
  simp only [resubmittedOperations, List.forall_mem_cons]
  exact ⟨intakeOf_permitted .., trivial, trivial, trivial, trivial, by simp⟩

/-- The rules were evaluated on one date. -/
theorem evaluated_on {trace : List Commit} {today : LocalDate}
    (h : ∀ commit ∈ trace, commit.evaluatesRules 1 = none ∨ commit.evaluatesRules 1 = some today) :
    ∀ commit ∈ trace, ∀ day, commit.evaluatesRules 1 = some day → day = today := by
  intro commit hmem day hday
  rcases h commit hmem with hnone | hsome
  · exact absurd (hnone.symm.trans hday) (by simp)
  · exact Option.some.inj (hday.symm.trans hsome)

end Sample

open Sample in
/-- Good data that was submitted twice needs a review. -/
theorem resubmittedTrace_reviewed :
    ∃ receipt, (current staff resubmittedTrace).receiptRow 1 = some receipt ∧
      receipt.currentData = some goodData ∧ receipt.status = some .needsReview := by
  obtain ⟨extracting, earlier, htrace⟩ :
    ∃ extracting earlier, resubmittedTrace.tail = extracting :: earlier := ⟨_, _, rfl⟩
  have hsuffix : extracting :: earlier <:+ resubmittedTrace := htrace ▸ List.tail_suffix _
  have hoperation : extracting.operation =
      .completeExtraction (firstClaim 1 "token") ⟨some goodData, [], []⟩ 3 0 3 := by
    obtain ⟨rfl, rfl⟩ := List.cons.inj htrace
    rfl
  have hdates : ∀ commit ∈ resubmittedTrace, ∀ day,
      commit.evaluatesRules 1 = some day → day = 0 := evaluated_on (by decide +kernel)
  have hclaim : (firstClaim 1 "token").receiptId = 1 := rfl
  obtain ⟨receipt, job, hreceipt, -, hduplicateOf⟩ :=
    (duplicates_commute_iff resubmittedTrace_run hsuffix hoperation hclaim hdates
      (by decide +kernel) ⟨resubmittedTrace[0], List.getElem_mem _, 4, 7, rfl⟩).mpr
      (.inl (by decide))
  exact ⟨receipt, hreceipt, hduplicateOf.currentData, by rw [hduplicateOf.status]; decide⟩

open Sample in
/-- An extraction reads one control character, and the image is submitted again: the
duplicate evaluates other data than was extracted, and the receipt ends as a manual entry
instead of a review. -/
theorem rewrittenTrace_not_commuted :
    ∃ trace extracting earlier claim extraction extractedAt completedAt,
      Run platform staff trace ∧ extracting :: earlier <:+ trace ∧
      extracting.operation = .completeExtraction claim extraction extractedAt 0 completedAt ∧
      claim.receiptId = 1 ∧
      (∀ commit ∈ trace, ∀ day, commit.evaluatesRules 1 = some day → day = 0) ∧
      (∀ commit ∈ trace, commit.operation.edits ≠ some 1) ∧
      (∃ commit ∈ trace, ∃ now day, commit.operation = .markDuplicate 1 now day) ∧
      ∃ receipt, (current staff trace).receiptRow 1 = some receipt ∧
        receipt.originalData ≠ extraction.data ∧ receipt.status = some .manualEntry ∧
        route extraction.data (validate 0 extraction.data true) = .needsReview := by
  obtain ⟨extracting, earlier, htrace⟩ :
    ∃ extracting earlier, rewrittenTrace.tail = extracting :: earlier := ⟨_, _, rfl⟩
  have hsuffix : extracting :: earlier <:+ rewrittenTrace := htrace ▸ List.tail_suffix _
  have hoperation : extracting.operation =
      .completeExtraction (firstClaim 1 "token") ⟨some controlData, [], []⟩ 2 0 2 := by
    obtain ⟨rfl, rfl⟩ := List.cons.inj htrace
    rfl
  have hfinal : ((current staff rewrittenTrace).receiptRow 1).any (fun receipt =>
      decide (receipt.originalData ≠ some controlData) &&
        decide (receipt.status = some .manualEntry)) = true := by decide +kernel
  obtain ⟨receipt, hreceipt, hread⟩ := (Option.any_eq_true _ _).mp hfinal
  simp only [Bool.and_eq_true, decide_eq_true_eq] at hread
  exact ⟨rewrittenTrace, extracting, earlier, firstClaim 1 "token", ⟨some controlData, [], []⟩,
    2, 2, rewrittenTrace_run, hsuffix, hoperation, rfl, evaluated_on (by decide +kernel),
    by decide +kernel, ⟨rewrittenTrace[0], List.getElem_mem _, 3, 0, rfl⟩, receipt, hreceipt,
    hread.1, hread.2, by decide +kernel⟩

/-! ## Duplicates and the state of a review -/

/-- The business status after a duplicate: an automatic approval is withdrawn,
and every other state stays. -/
def afterDuplicate : ReceiptStatus → ReceiptStatus
  | .autoApproved => .needsReview
  | status => status

/-- Nothing that a reviewer would recognize was read on the receipt. -/
def unreadData : Option ReceiptData → Bool
  | none => true
  | some data => data.shopName.isNone && data.date.isNone && data.totalAmount.isNone

theorem route_eq (data : Option ReceiptData) (results : List RuleResult) :
    route data results =
      if unreadData data then .manualEntry
      else if results.any RuleResult.failed then .needsReview else .autoApproved := by
  cases data <;> rfl

/-- Reading data back brings nothing to it. -/
theorem unreadData_rebuild (h : unreadData data = true) :
    unreadData (data.map ReceiptData.rebuild) = true := by
  cases data with
  | none => rfl
  | some present =>
      simp only [unreadData, Bool.and_eq_true, Option.isNone_iff_eq_none] at h
      obtain ⟨⟨hname, hdate⟩, htotal⟩ := h
      simp [unreadData, ReceiptData.rebuild, ReceiptData.of, ReceiptData.normalize, hname, hdate,
        htotal]

/-- A duplicate is routed by its data alone. -/
theorem route_validate_duplicate (today : LocalDate) (data : Option ReceiptData) :
    route data (validate today data true) =
      if unreadData data then .manualEntry else .needsReview := by
  have hfailed : (validate today data true).any RuleResult.failed = true := by
    have hduplicate : duplicateFailed (validate today data true) = true := by simp
    obtain ⟨result, hmem, hresult⟩ := List.any_eq_true.mp hduplicate
    simp only [Bool.and_eq_true] at hresult
    exact List.any_eq_true.mpr ⟨result, hmem, hresult.2⟩
  rw [route_eq, hfailed]
  rfl

/-- The three sources of a status leave different data behind. -/
structure ReceiptCase.Placed (x : ReceiptCase) : Prop where
  photo : x.receipt.status = some .needsRecapture ∨ x.receipt.status = some .unreadable →
    x.receipt.currentData = none
  manual : x.receipt.status = some .manualEntry → unreadData x.receipt.currentData = true
  routed : x.receipt.status = some .needsReview ∨ x.receipt.status = some .autoApproved →
    unreadData x.receipt.currentData = false

/-- A status that comes from routing fits the data. -/
theorem placed_of_route (results : List RuleResult) {status : ReceiptStatus}
    (hstatus : x.receipt.status = some status)
    (hroute : status = route x.receipt.currentData results ∨
      status = .needsReview ∧ route x.receipt.currentData results = .autoApproved) :
    x.Placed := by
  rw [route_eq] at hroute
  cases hunread : unreadData x.receipt.currentData with
  | true =>
      obtain rfl : status = .manualEntry := by simpa [hunread] using hroute
      exact ⟨by simp [hstatus], fun _ => hunread, by simp [hstatus]⟩
  | false =>
      have hrouted : status = .needsReview ∨ status = .autoApproved := by
        by_cases hfailed : results.any RuleResult.failed = true <;>
          simp [hunread, hfailed] at hroute <;> tauto
      rcases hrouted with rfl | rfl
      · exact ⟨by simp [hstatus], by simp [hstatus], fun _ => hunread⟩
      · exact ⟨by simp [hstatus], by simp [hstatus], fun _ => hunread⟩

/-- A human decision says nothing about the data. -/
theorem placed_of_terminal {status : ReceiptStatus} (hstatus : x.receipt.status = some status)
    (hterminal : isTerminal status = true) : x.Placed := by
  refine ⟨?_, ?_, ?_⟩ <;> rw [hstatus] <;> cases status <;> simp [isTerminal] at hterminal ⊢

theorem ReceiptCase.Step.placed (h : Step employees operation x events x') (hx : x.Placed) :
    x'.Placed := by
  cases h with
  | claimed | released | recovered | retryScheduled | duplicateDeferred =>
      exact ⟨hx.photo, hx.manual, hx.routed⟩
  | @qualityRejected _ _ quality =>
      refine ⟨fun _ => rfl, fun _ => rfl, ?_⟩
      cases hquality : quality.status <;>
        simp [Receipt.flushed, Receipt.completeExtraction, rejectedStatus, hquality]
  | extracted => exact placed_of_route _ rfl (.inl rfl)
  | failed =>
      exact ⟨fun _ => rfl, fun _ => rfl, by simp [Receipt.flushed, Receipt.completeExtraction]⟩
  | @duplicateMarked _ _ _ previous next _ _ hnext =>
      cases hterminal : isTerminal previous with
      | true =>
          rw [hterminal] at hnext
          exact placed_of_terminal rfl (hnext ▸ hterminal)
      | false =>
          rw [hterminal] at hnext
          exact placed_of_route _ rfl (.inl hnext)
  | @corrected _ _ _ corrections day =>
      let after := corrections.applyTo x.receipt.reread.currentData
      refine placed_of_route (validate day (some after) (duplicateFailed x.receipt.ruleResults))
        rfl ?_
      unfold correctedStatus
      simp only
      split
      · rename_i hrestricted
        exact .inr ⟨rfl, hrestricted.1⟩
      · exact .inl rfl
  | @decided _ _ _ decision =>
      exact placed_of_terminal rfl (by cases decision <;> rfl)

theorem ReceiptCase.Reaches.placed {log : List AuditEvent} (h : Reaches P employees x log) :
    x.Placed := by
  induction h with
  | created hpermitted =>
      obtain ⟨call, contentType, now, rfl, -, -⟩ := hpermitted
      exact ⟨fun _ => rfl, fun _ => rfl, by
        simp [intake, ReceiptUploadService.acceptedReceipt, Receipt.new]⟩
  | step _ _ hstep ih => exact hstep.placed ih

/-- A duplicate of this receipt leaves its state as it should: the flag is set
and the receipt is not approved automatically, or the flag is not set, the
state is not one of the quality inspection, and of a receipt that something was
read on, something is read back. -/
def SafelyMarked (receipt : Receipt) (job : ReceiptExtractionJob) : Prop :=
  if job.duplicateDetected then receipt.status ≠ some .autoApproved
  else receipt.status ≠ some .needsRecapture ∧ receipt.status ≠ some .unreadable ∧
    (receipt.status = some .needsReview ∨ receipt.status = some .autoApproved →
      unreadData receipt.reread.currentData = false)

/-- The status that an effective duplicate gives to a receipt. -/
theorem marked_status_iff (hx : x.Placed) {previous next : ReceiptStatus}
    (hflag : x.job.duplicateDetected = false) (hprevious : x.receipt.status = some previous)
    (hnext : next = (if isTerminal previous then previous
      else route x.receipt.reread.currentData (validate today x.receipt.reread.currentData true))) :
    next = afterDuplicate previous ↔ SafelyMarked x.receipt x.job := by
  rw [route_validate_duplicate] at hnext
  rw [SafelyMarked, hflag, hprevious, hnext]
  cases previous with
  | needsRecapture | unreadable =>
      -- without data there is nothing to review
      have hnone : x.receipt.currentData = none := hx.photo (by simp [hprevious])
      simp [isTerminal, hnone, unreadData, afterDuplicate]
  | manualEntry =>
      have hunread := unreadData_rebuild (hx.manual hprevious)
      simp [isTerminal, hunread, afterDuplicate]
  | needsReview | autoApproved =>
      -- what was read may be read back as missing
      cases hread : unreadData x.receipt.reread.currentData <;>
        simp [isTerminal, afterDuplicate]
  | approved | rejected => simp [isTerminal, afterDuplicate]

/-- One committed duplicate, in a run. -/
theorem Run.marked_status_iff (h : Run P employees (commit :: trace)) {now : Instant}
    {day : LocalDate} (hoperation : commit.operation = .markDuplicate id now day)
    {receipt : Receipt} {job : ReceiptExtractionJob} {previous : ReceiptStatus}
    (hreceipt : (current employees trace).receiptRow id = some receipt)
    (hjob : (current employees trace).findJobByReceiptId id = some job)
    (hprevious : receipt.status = some previous) :
    ∃ receipt', commit.after.receiptRow id = some receipt' ∧
      (receipt'.status = some (afterDuplicate previous) ↔ SafelyMarked receipt job) := by
  have hrefines := h.head.1.current_refines
  obtain ⟨x, hx, hid, hcase⟩ := h.marked hoperation
  have hxreceipt := hx.receipt
  have hxjob := hrefines.paired.findJobByReceiptId hx
  rw [hid] at hxreceipt hxjob
  rw [hxreceipt] at hreceipt
  cases hreceipt
  rw [hxjob] at hjob
  cases hjob
  rcases hcase with ⟨hflag, hafter, -⟩ | ⟨hflag, x', hafter, -, hstep⟩
  · -- nothing is written
    have hstored := hafter.receipt
    rw [hid] at hstored
    refine ⟨x.receipt, hstored, ?_⟩
    rw [SafelyMarked, hflag, hprevious]
    cases previous <;> simp [afterDuplicate]
  · have hstored := hafter.receipt
    rw [hstep.sameReceipt.id, hid] at hstored
    refine ⟨x'.receipt, hstored, ?_⟩
    have hplaced := (hrefines.reaches hx).placed
    rw [hoperation] at hstep
    generalize eventsFor x.receipt.id commit.changes.events = events at hstep
    cases hstep with
    | duplicateDeferred _ hpending =>
        rw [hprevious] at hpending
        exact absurd hpending (by simp)
    | duplicateMarked _ hstatus hnext =>
        rw [hprevious, Option.some.injEq] at hstatus
        rw [← hstatus] at hnext
        rw [← ReceiptReview.marked_status_iff hplaced hflag hprevious hnext]
        simp [Receipt.flushed, Receipt.updateData]

/-- Every duplicate of the receipt since then was safe. -/
def SafeSince (employees : Table Employee) (id : Long) (earlier trace : List Commit) : Prop :=
  ∀ before commit now day, commit :: before <:+ trace → earlier <:+ before →
    commit.operation = .markDuplicate id now day → ∀ receipt job,
    (current employees before).receiptRow id = some receipt →
    (current employees before).findJobByReceiptId id = some job → SafelyMarked receipt job

/-- No employee has acted on the receipt since then. -/
def UntouchedSince (id : Long) (earlier trace : List Commit) : Prop :=
  ∀ before commit, commit :: before <:+ trace → earlier <:+ before →
    commit.operation.edits ≠ some id

/-- A step keeps the state of a rejected photo, except a correction, a decision
and a duplicate that is not yet flagged. -/
theorem ReceiptCase.Step.photo_stays (h : Step employees operation x events x')
    (hx : x.Consistent)
    (hphoto : x.receipt.status = some .needsRecapture ∨ x.receipt.status = some .unreadable)
    (hhuman : operation.edits ≠ some x.receipt.id)
    (hmark : ∀ now day, operation = .markDuplicate x.receipt.id now day →
      SafelyMarked x.receipt x.job) : x'.receipt.status = x.receipt.status := by
  have hended : ¬ x.job.status.isPending := by
    rcases hphoto with hphoto | hphoto <;> exact hx.ended hphoto
  rcases h.of_ended hended with ⟨now, today, hoperation, -⟩ | ⟨hedits, -⟩
  · cases h with
    | duplicateDeferred => rfl
    | duplicateMarked hflag =>
        have hsafe := hmark _ _ rfl
        rw [SafelyMarked, hflag] at hsafe
        rcases hphoto with hphoto | hphoto
        · exact absurd hphoto hsafe.1
        · exact absurd hphoto hsafe.2.1
    | _ => cases hoperation
  · exact absurd hedits hhuman

/-- A receipt whose photo was rejected stays in that state as long as every
duplicate is safe and no employee acts on it. -/
theorem Run.photo_stays (h : Run P employees trace) (hearlier : earlier <:+ trace)
    {receipt : Receipt} (hreceipt : (current employees earlier).receiptRow id = some receipt)
    (hphoto : receipt.status = some .needsRecapture ∨ receipt.status = some .unreadable)
    (hsafe : SafeSince employees id earlier trace) (huntouched : UntouchedSince id earlier trace) :
    ∃ receipt', (current employees trace).receiptRow id = some receipt' ∧
      receipt'.status = receipt.status := by
  induction trace with
  | nil =>
      rw [List.suffix_nil.mp hearlier] at hreceipt
      exact ⟨receipt, hreceipt, rfl⟩
  | cons commit trace ih =>
      rcases List.suffix_cons_iff.mp hearlier with rfl | hearlier
      · exact ⟨receipt, hreceipt, rfl⟩
      have hlater : ∀ {before}, before <:+ trace → before <:+ commit :: trace :=
        fun hsuffix => hsuffix.trans (List.suffix_cons _ _)
      obtain ⟨next, hnext, hstatus⟩ := ih h.head.1 hearlier
        (fun before c now day hsuffix => hsafe before c now day (hlater hsuffix))
        (fun before c hsuffix => huntouched before c (hlater hsuffix))
      obtain ⟨x, hx, rfl⟩ := h.head.1.current_refines.paired.of_receipt hnext
      have hid : x.receipt.id = id := Database.id_of_receiptRow hnext
      obtain ⟨x', hx', hmoves⟩ := h.exists_moved hx
      have hstored := hx'.receipt
      rw [hmoves.sameReceipt.id, hid] at hstored
      refine ⟨x'.receipt, hstored, ?_⟩
      rw [← hstatus] at hphoto ⊢
      rcases hmoves with ⟨rfl, -⟩ | hstep
      · rfl
      · refine hstep.photo_stays (h.head.1.consistent hx) hphoto ?_ ?_
        · rw [hid]
          exact huntouched trace commit List.suffix_rfl hearlier
        · intro now day hoperation
          have hjob := h.head.1.current_refines.paired.findJobByReceiptId hx
          rw [hid] at hoperation hjob
          exact hsafe trace commit now day List.suffix_rfl hearlier hoperation _ _ hnext hjob

/-- A committed duplicate of a receipt with a business status leaves that status
as it is, except that an automatic approval needs a review, if and only if the
duplicate is safe.  In a run whose duplicates are all safe, a rejected photo
stays rejected until an employee acts on the receipt. -/
theorem review_state_kept_iff (hrun : Run P employees trace) :
    (∀ before commit id now day receipt job previous, commit :: before <:+ trace →
      commit.operation = .markDuplicate id now day →
      (current employees before).receiptRow id = some receipt →
      (current employees before).findJobByReceiptId id = some job →
      receipt.status = some previous →
      ∃ receipt', commit.after.receiptRow id = some receipt' ∧
        (receipt'.status = some (afterDuplicate previous) ↔ SafelyMarked receipt job)) ∧
    (∀ earlier id receipt, earlier <:+ trace →
      (current employees earlier).receiptRow id = some receipt →
      receipt.status = some .needsRecapture ∨ receipt.status = some .unreadable →
      SafeSince employees id earlier trace → UntouchedSince id earlier trace →
      ∃ receipt', (current employees trace).receiptRow id = some receipt' ∧
        receipt'.status = receipt.status) :=
  ⟨fun _ _ _ _ _ _ _ _ hsuffix hoperation hreceipt hjob hprevious =>
      (hrun.suffix hsuffix).marked_status_iff hoperation hreceipt hjob hprevious,
    fun _ _ _ hearlier hreceipt hphoto hsafe huntouched =>
      hrun.photo_stays hearlier hreceipt hphoto hsafe huntouched⟩

open Sample in
/-- The second submission of an approved image leaves it approved. -/
theorem approvalTrace_kept :
    ∃ receipt, (current staff approvalTrace).receiptRow 1 = some receipt ∧
      receipt.status = some .approved := by
  obtain ⟨receipt, hreceipt, hiff⟩ := (review_state_kept_iff approvalTrace_run).1
    approvalTrace.tail approvalTrace[0] 1 4 0 _ _ .approved List.suffix_rfl rfl rfl rfl rfl
  exact ⟨receipt, hreceipt, hiff.mpr ⟨by decide +kernel, by decide +kernel, by decide +kernel⟩⟩

/-! ## A rejected photo that becomes a manual entry -/

namespace Sample

/-- An image is submitted, found unreadable, and submitted again. -/
def unreadableOperations : List Operation :=
  [intakeOf (uploadOf "key-1" imageA) 1 1 0,
    claimAll 1 "token",
    .completeQualityRejection (firstClaim 1 "token") ⟨.unreadable, none, none, none⟩ 2,
    .markDuplicate 1 3 0]

def unreadableTrace : List Commit := (replay platform staff [] unreadableOperations).getD []

theorem unreadableTrace_run : Run platform staff unreadableTrace := by
  refine run_of_replay unreadableOperations .nil ?_ rfl
  simp only [unreadableOperations, List.forall_mem_cons]
  exact ⟨intakeOf_permitted .., trivial, trivial, trivial, by simp⟩

end Sample

open Sample in
/-- The second submission of an unreadable image takes it out of its state. -/
theorem unreadableTrace_upgraded :
    ∃ trace commit now day, Run platform staff (commit :: trace) ∧
      commit.operation = .markDuplicate 1 now day ∧ ∃ receipt receipt',
      (current staff trace).receiptRow 1 = some receipt ∧
      receipt.status = some .unreadable ∧
      commit.after.receiptRow 1 = some receipt' ∧ receipt'.status = some .manualEntry :=
  ⟨unreadableTrace.tail, unreadableTrace[0], 3, 0, unreadableTrace_run, rfl, _, _, rfl,
    by decide +kernel, rfl, by decide +kernel⟩

end ReceiptReview
