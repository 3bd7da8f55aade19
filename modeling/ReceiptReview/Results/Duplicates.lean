import ReceiptReview.Results.Finality

/-!
# Duplicates and automatic approval

That an image was submitted twice is kept in two places: in the flag of the job,
and in the failed rule of the stored results.  An extraction is told of the flag
and a correction of the rule.  The two disagree when a duplicate arrives while
the job is pending and the job ends without data: the flag is set, and the
stored results are empty.  A correction then evaluates the rules as if there
were no duplicate, and may approve the receipt.

This is the only way: in a run without such a correction, no duplicate is ever
approved automatically (`duplicates_held_iff`).
-/

namespace ReceiptReview

open Java Store ReceiptCase ReceiptCommandService ValidationEngine ReceiptStatusRouter
open CurrentEmployeeService ReceiptExtractionLifecycleService ReceiptPersistenceService

variable {P : Platform} {employees : Table Employee} {trace : List Commit} {commit : Commit}
variable {operation : Operation} {x x' : ReceiptCase} {events : List AuditEvent}

/-! ## The rule and its exception -/

/-- No receipt is approved automatically after its image was submitted again. -/
def Database.HoldsDuplicates (db : Database) : Prop :=
  ∀ id receipt job, db.receiptRow id = some receipt → db.findJobByReceiptId id = some job →
    receipt.status = some .autoApproved → job.duplicateDetected = false

/-- All rules pass on the data of a first submission. -/
def RulesPass (today : LocalDate) (data : ReceiptData) : Prop :=
  ∀ result ∈ validate today (some data) false, result.failed = false

/-- A reviewer or administrator corrects the receipt of somebody else, whose job
is flagged as a duplicate and whose stored results do not say so, and leaves of
the data that is read data on which the rules pass. -/
def Operation.ForgetsDuplicate (employees : Table Employee) (operation : Operation)
    (x : ReceiptCase) : Prop :=
  ∃ session expectedVersion corrections today now employee,
    operation = .correctFields session x.receipt.id expectedVersion corrections today now ∧
    getCurrentEmployee employees session = .ok employee ∧
    employee.role ≠ .employee ∧ some employee.id ≠ x.receipt.ownerEmployeeId ∧
    x.job.duplicateDetected = true ∧ duplicateFailed x.receipt.ruleResults = false ∧
    RulesPass today (corrections.applyTo x.receipt.reread.currentData)

/-! ## Routing of corrected data -/

/-- Data is routed to automatic approval exactly when no rule fails: the rules
ask for the fields whose absence means manual entry. -/
theorem route_validate_eq_autoApproved {today : LocalDate} {data : ReceiptData} :
    route (some data) (validate today (some data) false) = .autoApproved ↔
      RulesPass today data := by
  have hany : (validate today (some data) false).any RuleResult.failed = false ↔
      RulesPass today data := by
    simp [RulesPass, List.any_eq_false]
  rw [← hany]
  unfold route
  by_cases hblank : (data.shopName.isNone && data.date.isNone && data.totalAmount.isNone) = true
  · have hname : data.shopName = none := by
      simp only [Bool.and_eq_true, Option.isNone_iff_eq_none] at hblank
      exact hblank.1.1
    simp only [validate, Option.getD_some, hname, required, fail, List.any_cons, RuleResult.failed]
    split <;> simp
  · by_cases hfailed : (validate today (some data) false).any RuleResult.failed = true <;>
      simp [hblank, hfailed]

/-- A correction approves automatically only as a reviewer or administrator who
is not the owner, and only on data on which the rules pass. -/
theorem correctedStatus_eq_autoApproved {employee : Employee} {receipt : Receipt}
    {after : ReceiptData} {today : LocalDate} :
    correctedStatus employee receipt after
        (validate today (some after) (duplicateFailed receipt.ruleResults)) = .autoApproved ↔
      duplicateFailed receipt.ruleResults = false ∧ employee.role ≠ .employee ∧
        some employee.id ≠ receipt.ownerEmployeeId ∧ RulesPass today after := by
  unfold correctedStatus
  cases hduplicate : duplicateFailed receipt.ruleResults with
  | true =>
      have hroute : route (some after) (validate today (some after) true) ≠ .autoApproved :=
        route_ne_autoApproved (by simp)
      simp [hroute]
  | false =>
      rw [← route_validate_eq_autoApproved]
      by_cases hroute : route (some after) (validate today (some after) false) = .autoApproved
      · by_cases hrestricted : employee.role = .employee ∨
          some employee.id = receipt.ownerEmployeeId
        · simp only [hroute, hrestricted, and_self, if_true]
          simp only [reduceCtorEq, false_iff, true_and, and_true, not_and_or, not_not]
          exact hrestricted
        · simp only [hroute, hrestricted, and_false, if_false, true_iff]
          simpa [not_or] using hrestricted
      · simp [hroute]

/-! ## One step -/

/-- A case that is flagged as a duplicate is not approved automatically. -/
def ReceiptCase.HeldBack (x : ReceiptCase) : Prop :=
  x.receipt.status = some .autoApproved → x.job.duplicateDetected = false

/-- One step keeps a duplicate from automatic approval, or is a correction that
forgets the duplicate. -/
theorem ReceiptCase.Step.heldBack (h : Step employees operation x events x')
    (hx : x.HeldBack) (hremembers : ¬ operation.ForgetsDuplicate employees x) : x'.HeldBack := by
  intro hauto
  cases h with
  | claimed hclaim =>
      rw [(ReceiptExtractionJob.claim_eq_ok hclaim).2]
      exact hx hauto
  | released _ hrelease =>
      rw [(ReceiptExtractionJob.releaseClaim_eq_ok hrelease).2]
      exact hx hauto
  | recovered hrecover =>
      rw [(ReceiptExtractionJob.recoverExpiredLease_eq_ok hrecover).2.2]
      exact hx hauto
  | retryScheduled _ _ hretry =>
      rw [(ReceiptExtractionJob.scheduleRetry_eq_ok hretry).2]
      exact hx hauto
  | qualityRejected =>
      have hrejected : ∀ quality, rejectedStatus quality ≠ .autoApproved := by
        intro quality
        unfold rejectedStatus
        split <;> simp
      exact absurd (Option.some.inj hauto) (hrejected _)
  | extracted _ _ hcomplete hrules =>
      -- the extraction was told of the flag
      rw [(ReceiptExtractionJob.complete_eq_ok hcomplete).2]
      by_contra hflag
      have hduplicate : x.job.duplicateDetected = true := by
        simpa [ReceiptExtractionJob.flushed] using hflag
      rw [hduplicate] at hrules
      subst hrules
      exact absurd (Option.some.inj hauto) (route_ne_autoApproved (by simp))
  | failed => exact absurd hauto (by simp [Receipt.flushed, Receipt.completeExtraction])
  | duplicateDeferred _ hpending =>
      rw [hpending] at hauto
      exact absurd hauto (by simp)
  | duplicateMarked _ _ hnext =>
      have hnextStatus := Option.some.inj hauto
      subst hnextStatus
      split at hnext
      · -- a terminal status stays, and automatic approval is none
        rename_i hterminal
        rw [← hnext] at hterminal
        exact absurd hterminal (by decide)
      · exact absurd hnext.symm (route_ne_autoApproved (by simp))
  | corrected hemployee =>
      -- the correction was told of the stored rules, not of the flag
      obtain ⟨hforgotten, hrole, howner, hpass⟩ :=
        correctedStatus_eq_autoApproved.mp (Option.some.inj hauto)
      by_contra hflag
      exact hremembers ⟨_, _, _, _, _, _, rfl, hemployee, hrole, howner, by simpa using hflag,
        hforgotten, hpass⟩
  | decided =>
      rename_i decision _ _ _ _ _ _ _ _
      cases decision <;>
        exact absurd hauto (by simp [Receipt.flushed, Receipt.changeStatus, decidedStatus])

/-- A correction that forgets a duplicate approves it. -/
theorem ReceiptCase.Step.not_heldBack (h : Step employees operation x events x')
    (hforgets : operation.ForgetsDuplicate employees x) : ¬ x'.HeldBack := by
  obtain ⟨session, expectedVersion, corrections, today, now, employee, hoperation, hemployee, hrole,
    howner, hflag, hforgotten, hpass⟩ := hforgets
  cases h with
  | corrected hemployee' =>
      obtain ⟨rfl, -, -, rfl, rfl, -⟩ := Operation.correctFields.inj hoperation
      rw [hemployee] at hemployee'
      cases hemployee'
      intro hheld
      have hauto : correctedStatus employee x.receipt.reread _ _ = .autoApproved :=
        correctedStatus_eq_autoApproved.mpr ⟨hforgotten, hrole, howner, hpass⟩
      rw [hheld (congrArg some hauto)] at hflag
      exact absurd hflag (by simp)
  | _ => cases hoperation

/-! ## Whole runs -/

/-- A database holds duplicates back when all its cases do. -/
theorem holdsDuplicates_iff {db : Database} (hdb : db.Paired) :
    db.HoldsDuplicates ↔ ∀ x, db.HasCase x → x.HeldBack := by
  constructor
  · intro hholds x hx hauto
    exact hholds _ _ _ hx.receipt (hdb.findJobByReceiptId hx) hauto
  · intro hheld id receipt job hreceipt hjob hauto
    obtain ⟨x, hx, rfl⟩ := hdb.of_receipt hreceipt
    rw [← Database.id_of_receiptRow hreceipt, hdb.findJobByReceiptId hx] at hjob
    cases hjob
    exact hheld x hx hauto

theorem Run.heldBack (h : Run P employees trace)
    (hremembers : ∀ commit earlier, commit :: earlier <:+ trace →
      ∀ x, (current employees earlier).HasCase x → ¬ commit.operation.ForgetsDuplicate employees x)
    (hx : (current employees trace).HasCase x) : x.HeldBack := by
  induction trace generalizing x with
  | nil =>
      have hreceipt := hx.receipt
      simp [current, Database.initial, Database.receiptRow] at hreceipt
  | cons commit trace ih =>
      have hearlier : ∀ {y}, (current employees trace).HasCase y → y.HeldBack := by
        refine fun hy => ih h.head.1 (fun other earlier hsuffix => ?_) hy
        exact hremembers other earlier (hsuffix.trans (List.suffix_cons _ _))
      rcases h.created_or_moved hx with ⟨_, _, _, _, _, _, _, _, -, rfl, -⟩ | ⟨y, hy, hmoves⟩
      · exact fun _ => rfl
      · rcases hmoves with ⟨rfl, -⟩ | hstep
        · exact hearlier hy
        · exact hstep.heldBack (hearlier hy) (hremembers commit trace List.suffix_rfl y hy)

/-- In a run, no duplicate is ever approved automatically if and only if no
committed operation was a correction that forgets a duplicate. -/
theorem duplicates_held_iff (hrun : Run P employees trace) :
    (∀ db ∈ snapshots employees trace, db.HoldsDuplicates) ↔
      ∀ commit earlier, commit :: earlier <:+ trace →
        ∀ x, (current employees earlier).HasCase x →
          ¬ commit.operation.ForgetsDuplicate employees x := by
  constructor
  · intro hholds commit earlier hsuffix x hx hforgets
    have hthen := hrun.suffix hsuffix
    have hedits : commit.operation.edits = some x.receipt.id := by
      obtain ⟨_, _, _, _, _, _, hoperation, -⟩ := hforgets
      rw [hoperation]
      rfl
    obtain ⟨y, x', hy, hid, hx', hstep⟩ := hthen.step_of_edits hedits
    obtain rfl := hthen.head.1.current_refines.paired.unique hy hx hid
    have hheld := hholds commit.after (mem_snapshots_iff.mpr ⟨commit :: earlier, hsuffix, rfl⟩)
    have hpaired : commit.after.Paired := hthen.current_refines.paired
    exact hstep.not_heldBack hforgets ((holdsDuplicates_iff hpaired).mp hheld x' hx')
  · intro hremembers db hdb
    obtain ⟨earlier, hsuffix, rfl⟩ := mem_snapshots_iff.mp hdb
    have hthen := hrun.suffix hsuffix
    rw [holdsDuplicates_iff hthen.current_refines.paired]
    refine fun x hx => hthen.heldBack (fun commit before hbefore => ?_) hx
    exact hremembers commit before (hbefore.trans hsuffix)

/-! ## A duplicate that is forgotten -/

namespace Sample

/-- An image is submitted again while it is processed, the extraction fails, and
a reviewer enters the fields. -/
def forgottenOperations : List Operation :=
  [intakeOf (uploadOf "key-1" imageA) 1 1 0,
    claimAll 1 "token",
    .markDuplicate 1 2 0,
    .failExtraction (firstClaim 1 "token") (.ofString "MISSING_API_KEY") none 3,
    .correctFields (login 2 "reviewer") 1 1 goodFields 0 4]

def forgottenTrace : List Commit := (replay platform staff [] forgottenOperations).getD []

theorem forgottenTrace_run : Run platform staff forgottenTrace := by
  refine run_of_replay forgottenOperations .nil ?_ rfl
  simp only [forgottenOperations, List.forall_mem_cons]
  exact ⟨intakeOf_permitted .., trivial, trivial, trivial, login_loaded _ _, by simp⟩

end Sample

open Sample in
/-- A receipt is approved without a decision although its image was submitted twice. -/
theorem forgottenTrace_approved :
    ∃ trace, Run platform staff trace ∧ ∃ receipt job,
      (current staff trace).receiptRow 1 = some receipt ∧
      (current staff trace).findJobByReceiptId 1 = some job ∧
      receipt.status = some .autoApproved ∧ job.duplicateDetected = true :=
  ⟨forgottenTrace, forgottenTrace_run, _, _, rfl, rfl, by decide +kernel, by decide +kernel⟩

open Sample in
/-- Without a correction the duplicates of a run are held back. -/
theorem approvalTrace_holds : (current staff approvalTrace).HoldsDuplicates := by
  refine (duplicates_held_iff approvalTrace_run).mpr ?_ _ (current_mem_snapshots _ _)
  rintro commit earlier hsuffix x - ⟨_, _, _, _, _, _, hoperation, -⟩
  have hcommit : commit.operation ∈ approvalTrace.map Commit.operation :=
    List.mem_map_of_mem (hsuffix.subset (by simp))
  rw [show approvalTrace.map Commit.operation = approvalOperations.reverse from rfl,
    hoperation] at hcommit
  simp [approvalOperations, intakeOf, claimAll] at hcommit

end ReceiptReview
