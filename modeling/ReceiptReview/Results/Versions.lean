import ReceiptReview.Lifecycle.Marks
import ReceiptReview.Results.AuditReplay
import ReceiptReview.Results.Ownership

/-!
# No lost update

The abstract receipt has one client at a time: each operation reads the receipt
that the one before it has left (`SerialReceipt.apply`).  The database refines
it: however the transactions of a run overlap, the stored receipt is what their
operations make of it one after the other, in the order of its versions
(`Run.refines_serial`).

A command names the version that its client has seen.  The check against the
snapshot and the check at the commit together say that this is the version of
the stored receipt, which the commit then counts up; so no version is named by
two committed commands (`no_lost_update`).
-/

namespace ReceiptReview

open Java Store ReceiptCase ReceiptCommandService ReceiptPersistenceService
open ReceiptExtractionLifecycleService CurrentEmployeeService ValidationEngine ReceiptStatusRouter

variable {P : Platform} {employees : Table Employee} {trace earlier : List Commit}
variable {commit : Commit} {operation : Operation} {x x' : ReceiptCase} {events : List AuditEvent}

/-! ## One client at a time -/

/-- A receipt, and whether its image was submitted again. -/
structure SerialReceipt where
  receipt : Receipt
  duplicate : Bool
  deriving DecidableEq, Repr

namespace SerialReceipt

/-- What an operation makes of the receipt when nobody else is at work: it reads the receipt
back and writes all of it. -/
def apply (employees : Table Employee) (operation : Operation) (s : SerialReceipt) :
    SerialReceipt :=
  match operation with
  | .completeQualityRejection claim quality now =>
      if claim.receiptId = s.receipt.id then
        { s with
          receipt :=
            (s.receipt.reread.completeExtraction none [] (rejectedStatus quality) now).flushed }
      else s
  | .completeExtraction claim extraction _ today completedAt =>
      if claim.receiptId = s.receipt.id then
        let rules := validate today extraction.data s.duplicate
        { s with
          receipt := (s.receipt.reread.completeExtraction extraction.data rules
            (route extraction.data rules) completedAt).flushed }
      else s
  | .failExtraction claim _ _ now =>
      if claim.receiptId = s.receipt.id then
        { s with receipt := (s.receipt.reread.completeExtraction none [] .manualEntry now).flushed }
      else s
  | .markDuplicate receiptId now today =>
      if receiptId = s.receipt.id ∧ s.duplicate = false then
        match s.receipt.status with
        -- the extraction is not over: only the flag is set, for its rules
        | none => { s with duplicate := true }
        | some previous =>
            let read := s.receipt.reread
            let rules := validate today read.currentData true
            let next := if isTerminal previous then previous else route read.currentData rules
            { receipt := (read.updateData read.currentData rules next now).flushed
              duplicate := true }
      else s
  | .correctFields session receiptId _ corrections today now =>
      if receiptId = s.receipt.id then
        match getCurrentEmployee employees session with
        | .error _ => s
        | .ok employee =>
            let receipt := corrected employee s.receipt.reread corrections today now
            { s with receipt := receipt.flushed }
      else s
  | .decide _ receiptId _ decision _ now =>
      if receiptId = s.receipt.id then
        { s with receipt := (s.receipt.reread.changeStatus (decidedStatus decision) now).flushed }
      else s
  | .createQueued .. | .claimAvailable .. | .release .. | .recoverExpired ..
  | .scheduleRetry .. => s

end SerialReceipt

/-- The receipt after the committed operations of a trace, one after the other. -/
def serial (employees : Table Employee) (id : Long) : List Commit → Option SerialReceipt
  | [] => none
  | commit :: trace =>
      match serial employees id trace, commit.operation with
      | some s, operation => some (s.apply employees operation)
      | none, .createQueued receipt _ _ _ receiptId _ _ _ =>
          if receiptId = id then some ⟨{ receipt with id := receiptId }, false⟩ else none
      | none, _ => none

/-- The part of a case that operations on the receipt depend on. -/
def ReceiptCase.toSerial (x : ReceiptCase) : SerialReceipt where
  receipt := x.receipt
  duplicate := x.job.duplicateDetected

/-! ## The database refines it -/

/-- A step leaves the receipt alone or takes it to the next version. -/
theorem ReceiptCase.Step.version_cases (h : Step employees operation x events x') :
    x'.receipt = x.receipt ∨ x'.receipt.version = x.receipt.version + 1 := by
  cases h with
  | claimed | released | recovered | retryScheduled | duplicateDeferred => exact .inl rfl
  | qualityRejected | extracted | failed | duplicateMarked | corrected | decided => exact .inr rfl

/-- A step of a case is the operation on its receipt. -/
theorem ReceiptCase.Step.toSerial (h : Step employees operation x events x') :
    x.toSerial.apply employees operation = x'.toSerial := by
  cases h with
  | claimed hclaim =>
      rw [(ReceiptExtractionJob.claim_eq_ok hclaim).2]
      rfl
  | released _ hrelease =>
      rw [(ReceiptExtractionJob.releaseClaim_eq_ok hrelease).2]
      rfl
  | recovered hrecover =>
      rw [(ReceiptExtractionJob.recoverExpiredLease_eq_ok hrecover).2.2]
      rfl
  | retryScheduled _ _ hretry =>
      rw [(ReceiptExtractionJob.scheduleRetry_eq_ok hretry).2]
      rfl
  | qualityRejected _ hid hcomplete =>
      rw [(ReceiptExtractionJob.complete_eq_ok hcomplete).2]
      simp [SerialReceipt.apply, ReceiptCase.toSerial, hid, ReceiptExtractionJob.flushed]
  | extracted _ hid hcomplete hrules =>
      rw [(ReceiptExtractionJob.complete_eq_ok hcomplete).2]
      -- the rules see the flag that the serial receipt carries
      subst hrules
      simp [SerialReceipt.apply, ReceiptCase.toSerial, hid, ReceiptExtractionJob.flushed]
  | failed _ hid hfail =>
      rw [(ReceiptExtractionJob.fail_eq_ok hfail).2]
      simp [SerialReceipt.apply, ReceiptCase.toSerial, hid, ReceiptExtractionJob.flushed]
  | duplicateDeferred hflag hstatus =>
      simp [SerialReceipt.apply, ReceiptCase.toSerial, hflag, hstatus,
        ReceiptExtractionJob.flushed, ReceiptExtractionJob.markDuplicate]
  | duplicateMarked hflag hstatus hnext =>
      simp [SerialReceipt.apply, ReceiptCase.toSerial, hflag, hstatus, hnext,
        ReceiptExtractionJob.flushed, ReceiptExtractionJob.markDuplicate]
  | corrected hemployee =>
      simp [SerialReceipt.apply, ReceiptCase.toSerial, hemployee]
  | decided => simp [SerialReceipt.apply, ReceiptCase.toSerial]

/-- The receipt on which an operation acts. -/
def Operation.target : Operation → Option Long
  | completeQualityRejection claim _ _ | completeExtraction claim _ _ _ _
  | failExtraction claim _ _ _ => some claim.receiptId
  | markDuplicate receiptId _ _ => some receiptId
  | correctFields _ receiptId _ _ _ _ | decide _ receiptId _ _ _ _ => some receiptId
  | createQueued .. | claimAvailable .. | release .. | recoverExpired .. | scheduleRetry .. => none

theorem SerialReceipt.apply_of_target {s : SerialReceipt}
    (h : operation.target ≠ some s.receipt.id) : s.apply employees operation = s := by
  cases operation <;> simp_all [Operation.target, SerialReceipt.apply]

/-- Operations on a receipt record what they do. -/
theorem ReceiptCase.Step.target_of_quiet (h : Step employees operation x [] x') :
    operation.target = none := by
  cases h <;> rfl

/-- An operation that records nothing for a stored receipt is about another
receipt, or marks a duplicate that is marked already. -/
theorem Run.apply_of_quiet (h : Run P employees (commit :: trace))
    (hx : (current employees trace).HasCase x)
    (hquiet : eventsFor x.receipt.id commit.changes.events = []) :
    x.toSerial.apply employees commit.operation = x.toSerial := by
  by_cases htarget : commit.operation.target = some x.receipt.id
  swap
  · exact SerialReceipt.apply_of_target htarget
  -- a step of this very case would have recorded an event
  have hnoStep : ∀ {y y'}, (current employees trace).HasCase y → y.receipt.id = x.receipt.id →
      ¬ Step employees commit.operation y (eventsFor y.receipt.id commit.changes.events) y' := by
    intro y y' hy hid hstep
    obtain rfl := h.head.1.current_refines.paired.unique hy hx hid
    rw [hquiet] at hstep
    rw [hstep.target_of_quiet] at htarget
    exact absurd htarget (by simp)
  cases hoperation : commit.operation with
  | completeQualityRejection claim | completeExtraction claim | failExtraction claim =>
      obtain ⟨y, hy, -, -, -, hstep, -⟩ :=
        h.step_of_claim? (show commit.operation.claim? = some claim by rw [hoperation]; rfl)
      rw [hoperation] at htarget
      have hcompletes : commit.operation.completes x.receipt.id = true := by
        rw [hoperation]
        simpa [Operation.completes, Operation.target] using htarget
      exact absurd hstep (hnoStep hy (hstep.of_completes hcompletes).1)
  | markDuplicate id now today =>
      obtain ⟨y, hy, hid, ⟨hflag, -⟩ | ⟨-, y', -, -, hstep⟩⟩ := h.marked hoperation
      · have hsame : y.receipt.id = x.receipt.id := by
          rw [hoperation] at htarget
          exact hid.trans (Option.some.inj htarget)
        obtain rfl := h.head.1.current_refines.paired.unique hy hx hsame
        simp [SerialReceipt.apply, ReceiptCase.toSerial, hflag]
      · rw [hoperation] at htarget
        exact absurd hstep (hnoStep hy (hid.trans (Option.some.inj htarget)))
  | correctFields | decide =>
      rw [hoperation] at htarget
      have hedits : commit.operation.edits = some x.receipt.id := by
        rw [hoperation]
        exact htarget
      obtain ⟨y, y', hy, hid, -, hstep⟩ := h.step_of_edits hedits
      exact absurd hstep (hnoStep hy hid)
  | createQueued | claimAvailable | release | recoverExpired | scheduleRetry => rfl

theorem serial_cons_of_some {id : Long} {s : SerialReceipt}
    (h : serial employees id trace = some s) :
    serial employees id (commit :: trace) = some (s.apply employees commit.operation) := by
  simp [serial, h]

/-- A receipt that is not stored was not stored before, nor is it created. -/
theorem Run.not_created (h : Run P employees (commit :: trace)) {id : Long}
    (hnone : commit.after.receiptRow id = none) :
    (current employees trace).receiptRow id = none ∧
      ∀ receipt imageStorageKey idempotencyKey auditEvents jobId createdAt recordedAt,
        commit.operation ≠ .createQueued receipt imageStorageKey idempotencyKey auditEvents id jobId
          createdAt recordedAt := by
  constructor
  · by_contra hstored
    obtain ⟨receipt, hreceipt⟩ := Option.ne_none_iff_exists'.mp hstored
    obtain ⟨receipt', hreceipt', -⟩ := h.stored_later (List.suffix_cons _ _) hreceipt
    have hafter : commit.after.receiptRow id = some receipt' := hreceipt'
    rw [hnone] at hafter
    exact absurd hafter (by simp)
  · intro receipt imageStorageKey idempotencyKey auditEvents jobId createdAt recordedAt hoperation
    obtain ⟨-, -, -, hcommit, snapshot, -, hbody⟩ := h.head
    rw [hoperation] at hbody
    simp only [Operation.body, replyWith_eq_ok] at hbody
    obtain ⟨pair, hcreate, -⟩ := hbody
    rw [(receiptRow_created hcreate hcommit id).2, if_pos rfl] at hnone
    exact absurd hnone (by simp)

/-- The stored receipts are those of the serial execution. -/
theorem Run.refines_serial (h : Run P employees trace) :
    (∀ {id}, (current employees trace).receiptRow id = none → serial employees id trace = none) ∧
      ∀ {x}, (current employees trace).HasCase x →
        serial employees x.receipt.id trace = some x.toSerial := by
  induction trace with
  | nil =>
      refine ⟨fun _ => rfl, fun hx => ?_⟩
      exact absurd hx.receipt (by simp [current, Database.initial, Database.receiptRow])
  | cons commit trace ih =>
      obtain ⟨hnone, hsome⟩ := ih h.head.1
      constructor
      · intro id hid
        obtain ⟨hbefore, hother⟩ := h.not_created hid
        rw [serial, hnone hbefore]
        cases hoperation : commit.operation with
        | createQueued receipt _ _ _ receiptId =>
            have hne : receiptId ≠ id := by
              rintro rfl
              exact hother _ _ _ _ _ _ _ hoperation
            simp [hne]
        | _ => rfl
      · intro x' hx'
        rcases h.created_or_moved hx' with
          ⟨receipt, _, _, _, receiptId, _, _, _, hoperation, rfl, -, hfresh⟩ | ⟨x, hx, hmoves⟩
        · -- the first version is that of the intake
          have hbefore : serial employees receiptId trace = none := hnone (h.head.2.1 ▸ hfresh)
          show serial employees receiptId (commit :: trace) = _
          rw [serial, hbefore, hoperation]
          simp [ReceiptCase.toSerial, intake, ReceiptExtractionJob.new]
        · rw [hmoves.sameReceipt.id, serial_cons_of_some (hsome hx)]
          rcases hmoves with ⟨rfl, hquiet⟩ | hstep
          · rw [h.apply_of_quiet hx hquiet]
          · rw [hstep.toSerial]

/-! ## Commands and versions -/

/-- The receipt that a command names, in the version that its client has seen. -/
def Operation.names : Operation → Option (Long × ℤ)
  | correctFields _ receiptId expectedVersion _ _ _ => some (receiptId, expectedVersion)
  | decide _ receiptId expectedVersion _ _ _ => some (receiptId, expectedVersion)
  | _ => none

/-- One field of a correction: cleared, or set to what was sent, or kept. -/
structure FieldCorrections.Field {α β : Type} (corrections : FieldCorrections) (field : String)
    (cleared : β) (read : α → β) (sent : Option α) (before after : β) : Prop where
  cleared : field ∈ corrections.clearFields → after = cleared
  set : field ∉ corrections.clearFields → ∀ value, sent = some value → after = read value
  kept : field ∉ corrections.clearFields → sent = none → after = before

/-- The receipt data before and after a correction, field by field. -/
structure FieldCorrections.Corrects (corrections : FieldCorrections) (before after : ReceiptData) :
    Prop where
  shopName : corrections.Field "shopName" none (fun text => ReceiptData.normalize (some text))
    corrections.shopName before.shopName after.shopName
  date : corrections.Field "date" none some corrections.date before.date after.date
  totalAmount : corrections.Field "totalAmount" none some corrections.totalAmount
    before.totalAmount after.totalAmount
  businessRegistrationNumber : corrections.Field "businessRegistrationNumber" none
    (fun text => ReceiptData.normalize (some text)) corrections.businessRegistrationNumber
    before.businessRegistrationNumber after.businessRegistrationNumber
  paymentMethod : corrections.Field "paymentMethod" none
    (fun text => ReceiptData.normalize (some text)) corrections.paymentMethod
    before.paymentMethod after.paymentMethod
  lineItems : corrections.Field "lineItems" [] id corrections.lineItems before.lineItems
    after.lineItems

/-- The command has acted on this state of the receipt, as it was read: its event tells the
status and the data from which it has started. -/
def Commit.ActsOn (commit : Commit) (receipt : Receipt) : Prop :=
  ∃ event written, commit.changes.events = [event] ∧ commit.changes.receipts = [written] ∧
    event.receiptId = receipt.id ∧ event.previousStatus = receipt.status ∧
    match commit.operation with
    | .correctFields _ _ _ corrections _ _ =>
        event.data "before" = receipt.currentData ∧
          written.currentData = some (corrections.applyTo receipt.currentData) ∧
          corrections.Corrects (receipt.currentData.getD .blank)
            (corrections.applyTo receipt.currentData)
    | .decide _ _ _ decision _ _ =>
        written.currentData = receipt.currentData ∧
          written.status = some (decidedStatus decision)
    | _ => True

theorem FieldCorrections.field_corrected {α : Type} (corrections : FieldCorrections)
    (field : String) (sent before : Option α) :
    corrections.Field field none some sent before (corrections.corrected field sent before) := by
  unfold FieldCorrections.corrected
  constructor
  · intro hcleared
    rw [if_pos (List.contains_iff_mem.mpr hcleared)]
  · intro hnot value hsent
    rw [if_neg (by rwa [List.contains_iff_mem]), hsent]
    rfl
  · intro hnot hsent
    rw [if_neg (by rwa [List.contains_iff_mem]), hsent]
    rfl

/-- The constructor reads a text that was sent; it keeps one that reads back. -/
theorem FieldCorrections.Field.normalize {corrections : FieldCorrections} {field : String}
    {sent before after : Option JString} (h : corrections.Field field none some sent before after)
    (hread : ReceiptData.normalize before = before) :
    corrections.Field field none (fun text => ReceiptData.normalize (some text)) sent before
      (ReceiptData.normalize after) where
  cleared hcleared := by rw [h.cleared hcleared]; rfl
  set hnot value hsent := by rw [h.set hnot value hsent]
  kept hnot hsent := by rw [h.kept hnot hsent, hread]

/-- A correction of data that reads back as it is. -/
theorem FieldCorrections.corrects_applyTo (corrections : FieldCorrections)
    {data : Option ReceiptData} (hread : data.map ReceiptData.rebuild = data) :
    corrections.Corrects (data.getD .blank) (corrections.applyTo data) := by
  have hsame : (data.getD .blank).rebuild = data.getD .blank := by
    cases data with
    | none => rfl
    | some data => exact Option.some.inj hread
  have htext : ∀ {text : ReceiptData → Option JString},
      text (data.getD .blank).rebuild = ReceiptData.normalize (text (data.getD .blank)) →
      ReceiptData.normalize (text (data.getD .blank)) = text (data.getD .blank) := by
    intro text htext
    rw [← htext, hsame]
  constructor
  case shopName => exact (corrections.field_corrected ..).normalize (htext rfl)
  case date => exact corrections.field_corrected ..
  case totalAmount => exact corrections.field_corrected ..
  case businessRegistrationNumber => exact (corrections.field_corrected ..).normalize (htext rfl)
  case paymentMethod => exact (corrections.field_corrected ..).normalize (htext rfl)
  case lineItems =>
    constructor
    · intro hcleared
      simp [applyTo, ReceiptData.of, hcleared]
    · intro hnot value hsent
      simp [applyTo, ReceiptData.of, hnot, hsent]
    · intro hnot hsent
      simp [applyTo, ReceiptData.of, hnot, hsent]

theorem version_of_ensureVersion {receipt : Receipt} {version : ℤ}
    (h : ensureVersion receipt version = .ok ()) : (receipt.version : ℤ) = version := by
  simpa [ensureVersion] using h

/-- A committed command acts on the stored receipt, as it is read, of the version that it
names, and counts the version up. -/
theorem Run.acts_on (h : Run P employees (commit :: trace)) {id : Long} {version : ℤ}
    (hnames : commit.operation.names = some (id, version)) :
    ∃ receipt receipt', (current employees trace).receiptRow id = some receipt ∧
      (receipt.version : ℤ) = version ∧ commit.ActsOn receipt.reread ∧
      commit.after.receiptRow id = some receipt' ∧ receipt'.version = receipt.version + 1 := by
  obtain ⟨hrun, hbefore, -, hcommit, snapshot, hsnapshot, hbody⟩ := h.head
  obtain ⟨-, hreceipts, -⟩ := hrun.refines hsnapshot
  rw [hbefore] at hcommit
  -- what is written back has been read as it still is
  have hwritten : ∀ {receipt written : Receipt}, snapshot.receiptRow id = some receipt →
      commit.changes.receipts = [written] → commit.changes.created = none →
      written.id = receipt.id → written.version = receipt.version →
      (current employees trace).receiptRow id = some receipt ∧
        ∃ receipt', commit.after.receiptRow id = some receipt' ∧
          receipt'.version = receipt.version + 1 := by
    intro receipt written hread hchanged hcreated hid hversion
    have hstored := stored_receipt hreceipts hcommit (by simp [hchanged]) hread hid hversion
    rw [Database.id_of_receiptRow hread] at hstored
    refine ⟨hstored, _, by rw [receiptRow_written hcreated hcommit, hstored]; rfl, ?_⟩
    rw [hchanged]
    exact congrArg Receipt.version (Table.updated_singleton_self hid)
  cases hoperation : commit.operation <;> rw [hoperation] at hnames hbody <;> cases hnames <;>
    simp only [Operation.body, replyWith_eq_ok] at hbody <;> obtain ⟨result, hresult, -⟩ := hbody
  case correctFields =>
      obtain ⟨employee, receipt, -, hread, -, hversion, -, -, hchanges⟩ :=
        ReceiptCommandService.correctFields_eq_ok hresult
      obtain ⟨hstored, receipt', hafter, hnext⟩ :=
        hwritten hread (congrArg Database.Changes.receipts hchanges)
          (congrArg Database.Changes.created hchanges) rfl rfl
      refine ⟨receipt, receipt', hstored, version_of_ensureVersion hversion, ?_, hafter, hnext⟩
      rw [Commit.ActsOn, hchanges, hoperation]
      refine ⟨_, _, rfl, rfl, rfl, rfl, (data_correctedEvent ..).1, rfl, ?_⟩
      exact FieldCorrections.corrects_applyTo _ (congrArg Receipt.currentData receipt.reread_reread)
  case decide =>
      obtain ⟨employee, receipt, -, hread, -, hversion, -, -, -, hchanges⟩ :=
        ReceiptCommandService.decide_eq_ok hresult
      obtain ⟨hstored, receipt', hafter, hnext⟩ :=
        hwritten hread (congrArg Database.Changes.receipts hchanges)
          (congrArg Database.Changes.created hchanges) rfl rfl
      refine ⟨receipt, receipt', hstored, version_of_ensureVersion hversion, ?_, hafter, hnext⟩
      rw [Commit.ActsOn, hchanges, hoperation]
      exact ⟨_, _, rfl, rfl, rfl, rfl, rfl, rfl⟩

/-- The version of a receipt never goes down, and it determines the receipt. -/
theorem Run.receipts_precede (h : Run P employees trace) (hearlier : earlier <:+ trace) :
    (current employees earlier).receipts.Precedes (current employees trace).receipts :=
  (h.refines (mem_snapshots_iff.mpr ⟨earlier, hearlier, rfl⟩)).2.1

theorem Run.version_le (h : Run P employees trace) (hearlier : earlier <:+ trace) {id : Long}
    {receipt receipt' : Receipt} (hreceipt : (current employees earlier).receiptRow id =
      some receipt) (hreceipt' : (current employees trace).receiptRow id = some receipt') :
    receipt.version ≤ receipt'.version := by
  obtain ⟨later, hlater, hcase⟩ := h.receipts_precede hearlier id receipt hreceipt
  rw [show Table.find? _ id = some receipt' from hreceipt'] at hlater
  cases hlater
  rcases hcase with rfl | hlt
  · exact le_rfl
  · exact hlt.le

/-- A version that was named is behind the stored receipt from then on. -/
theorem Run.lt_version_of_named (h : Run P employees trace) (hmem : commit ∈ trace) {id : Long}
    {version : ℤ} (hnames : commit.operation.names = some (id, version)) {receipt : Receipt}
    (hreceipt : (current employees trace).receiptRow id = some receipt) :
    version < receipt.version := by
  obtain ⟨later, earlier, rfl⟩ := List.append_of_mem hmem
  have hsuffix : commit :: earlier <:+ later ++ commit :: earlier := List.suffix_append _ _
  obtain ⟨then_, next, -, hversion, -, hafter, hnext⟩ := (h.suffix hsuffix).acts_on hnames
  have hle := h.version_le hsuffix hafter hreceipt
  omega

/-- No version is named by two committed commands. -/
theorem Run.names_once (h : Run P employees trace) (id : Long) (version : ℤ) :
    trace.countP (fun commit => commit.operation.names = some (id, version)) ≤ 1 := by
  induction trace with
  | nil => simp
  | cons commit trace ih =>
      rw [List.countP_cons]
      by_cases hnames : commit.operation.names = some (id, version)
      · have hfirst : trace.countP
            (fun commit => commit.operation.names = some (id, version)) = 0 := by
          rw [List.countP_eq_zero]
          intro earlier hmem hearlier
          obtain ⟨receipt, -, hreceipt, hversion, -⟩ := h.acts_on hnames
          have := h.head.1.lt_version_of_named hmem (of_decide_eq_true hearlier) hreceipt
          omega
        simp [hfirst, hnames]
      · simpa [hnames] using ih h.head.1

/-- Two states of a receipt with the same version are the same state. -/
theorem Run.receipt_of_version (h : Run P employees trace) {moment moment' : List Commit}
    (hmoment : moment <:+ trace) (hmoment' : moment' <:+ trace) {id : Long}
    {receipt receipt' : Receipt}
    (hreceipt : (current employees moment).receiptRow id = some receipt)
    (hreceipt' : (current employees moment').receiptRow id = some receipt')
    (hversion : receipt.version = receipt'.version) : receipt' = receipt := by
  rcases List.suffix_or_suffix_of_suffix hmoment hmoment' with hsuffix | hsuffix
  · exact ((h.suffix hmoment').receipts_precede hsuffix).eq_of_version hreceipt hreceipt' hversion
  · exact (((h.suffix hmoment).receipts_precede hsuffix).eq_of_version hreceipt' hreceipt
      hversion.symm).symm

/-- No lost update, for any interleaving of commands, duplicates and outcomes: a
version of a receipt is named by at most one committed command; the command has
acted on the one state that the receipt has had in this version, and a correction has
cleared, set and kept its fields as it was asked to; and the stored
receipt is what the committed operations make of it one after the other, where
each of them leaves the receipt alone or takes it to the next version. -/
theorem no_lost_update (hrun : Run P employees trace) :
    (∀ id version,
      trace.countP (fun commit => commit.operation.names = some (id, version)) ≤ 1) ∧
    (∀ earlier commit id version, commit :: earlier <:+ trace →
      commit.operation.names = some (id, version) →
      ∃ receipt, (current employees earlier).receiptRow id = some receipt ∧
        (receipt.version : ℤ) = version ∧ commit.ActsOn receipt.reread ∧
        ∀ moment other, moment <:+ trace →
          (current employees moment).receiptRow id = some other →
          (other.version : ℤ) = version → other = receipt) ∧
    (∀ id receipt, (current employees trace).receiptRow id = some receipt →
      ∃ s, serial employees id trace = some s ∧ s.receipt = receipt) ∧
    (∀ earlier commit id receipt receipt', commit :: earlier <:+ trace →
      (current employees earlier).receiptRow id = some receipt →
      commit.after.receiptRow id = some receipt' →
      receipt' = receipt ∨ receipt'.version = receipt.version + 1) := by
  refine ⟨hrun.names_once, ?_, ?_, ?_⟩
  · intro earlier commit id version hsuffix hnames
    obtain ⟨receipt, -, hreceipt, hversion, hacts, -⟩ := (hrun.suffix hsuffix).acts_on hnames
    refine ⟨receipt, hreceipt, hversion, hacts, fun moment other hmoment hother hsame => ?_⟩
    exact hrun.receipt_of_version ((List.suffix_cons _ _).trans hsuffix) hmoment hreceipt hother
      (by omega)
  · intro id receipt hreceipt
    obtain ⟨x, hx, rfl⟩ := hrun.current_refines.paired.of_receipt hreceipt
    rw [← Database.id_of_receiptRow hreceipt]
    exact ⟨x.toSerial, hrun.refines_serial.2 hx, rfl⟩
  · intro earlier commit id receipt receipt' hsuffix hreceipt hreceipt'
    have hcommit := hrun.suffix hsuffix
    obtain ⟨x, hx, rfl⟩ := hcommit.head.1.current_refines.paired.of_receipt hreceipt
    obtain ⟨x', hx', hmoves⟩ := hcommit.exists_moved hx
    have hafter := hx'.receipt
    rw [hmoves.sameReceipt.id, Database.id_of_receiptRow hreceipt, hreceipt'] at hafter
    cases hafter
    -- an operation on another receipt leaves this one as it is
    rcases hmoves with ⟨rfl, -⟩ | hstep
    · exact .inl rfl
    · exact hstep.version_cases

namespace Sample

/-- The date is cleared, the payment method set and the rest kept. -/
def mixedFields : FieldCorrections where
  shopName := none
  date := some 1
  totalAmount := none
  businessRegistrationNumber := none
  paymentMethod := some (.ofString " card ")
  lineItems := none
  clearFields := ["date"]

/-- A receipt is submitted again, corrected and rejected. -/
def correctedOperations : List Operation :=
  [intakeOf (uploadOf "key-1" imageA) 1 1 0,
    claimAll 1 "token",
    .completeExtraction (firstClaim 1 "token") ⟨some goodData, [], []⟩ 2 0 2,
    .markDuplicate 1 3 0,
    .correctFields (login 2 "reviewer") 1 2 mixedFields 0 4,
    .decide (login 2 "reviewer") 1 3 .reject none 5]

def correctedTrace : List Commit := (replay platform staff [] correctedOperations).getD []

theorem correctedTrace_run : Run platform staff correctedTrace := by
  refine run_of_replay correctedOperations .nil ?_ rfl
  simp only [correctedOperations, List.forall_mem_cons]
  exact ⟨intakeOf_permitted .., trivial, trivial, trivial, login_loaded _ _, login_loaded _ _,
    by simp⟩

end Sample

open Sample in
/-- The extraction, the second submission, the correction and the decision make four
versions; the correction has acted on the second one. -/
theorem correctedTrace_serial :
    ∃ s data, serial staff 1 correctedTrace = some s ∧ s.receipt.version = 4 ∧
      s.receipt.status = some .rejected ∧ s.receipt.currentData = some data ∧
      data.shopName = some (.ofString "Shop") ∧ data.date = none ∧
      data.paymentMethod = some (.ofString "card") ∧
      ∃ correcting earlier receipt, correcting :: earlier <:+ correctedTrace ∧
        (current staff earlier).receiptRow 1 = some receipt ∧ receipt.version = 2 ∧
        correcting.ActsOn receipt.reread := by
  obtain ⟨-, hacts, hserial, -⟩ := no_lost_update correctedTrace_run
  obtain ⟨s, hs, hreceipt⟩ := hserial 1 _ rfl
  obtain ⟨correcting, earlier, htrace⟩ :
    ∃ correcting earlier, correctedTrace.tail = correcting :: earlier := ⟨_, _, rfl⟩
  have hsuffix : correcting :: earlier <:+ correctedTrace := htrace ▸ List.tail_suffix _
  have hnames : correcting.operation.names = some (1, 2) := by
    obtain ⟨rfl, rfl⟩ := List.cons.inj htrace
    rfl
  obtain ⟨receipt, hstored, hversion, hactsOn, -⟩ := hacts earlier correcting 1 2 hsuffix hnames
  exact ⟨s, _, hs, by rw [hreceipt]; rfl, by rw [hreceipt]; rfl, by rw [hreceipt]; rfl,
    by decide +kernel, by decide +kernel, by decide +kernel, correcting, earlier, receipt, hsuffix,
    hstored, Int.ofNat_inj.mp hversion, hactsOn⟩

end ReceiptReview
