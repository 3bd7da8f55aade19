import ReceiptReview.Lifecycle.Runs
import ReceiptReview.System.Replay

/-!
# Data, rules and status

Four operations write the data, the rules and the status of a receipt together,
and a decision writes the status alone.  A receipt is always in one of three
shapes: nothing has been extracted, the extraction gave no data, or the rules
are an evaluation of the present data.  Each operation takes each shape to one
of the three, and they exclude one another: an evaluation is never empty.

What an automatic approval means follows from the last shape, rule by rule.
-/

namespace ReceiptReview

open Java Store ReceiptCase ReceiptCommandService ReceiptExtractionLifecycleService
open ReceiptPersistenceService ValidationEngine ReceiptStatusRouter

variable {P : Platform} {employees : Table Employee} {trace : List Commit}
variable {operation : Operation} {x x' : ReceiptCase} {events : List AuditEvent}
variable {receipt : Receipt}

/-! ## Three shapes -/

inductive ReceiptShape
  | unprocessed
  | withoutData
  | validated
  deriving DecidableEq, Repr

namespace Receipt

/-- The extraction has not delivered an outcome. -/
structure Unprocessed (receipt : Receipt) : Prop where
  status : receipt.status = none
  currentData : receipt.currentData = none
  ruleResults : receipt.ruleResults = []

/-- The extraction ended without data, and nobody has entered any. -/
structure WithoutData (receipt : Receipt) : Prop where
  currentData : receipt.currentData = none
  ruleResults : receipt.ruleResults = []
  status : receipt.status = some .needsRecapture ∨ receipt.status = some .unreadable ∨
    receipt.status = some .manualEntry ∨ receipt.status = some .rejected

/-- The status that goes with the data and the results: the routed one, a review
in place of an automatic approval, or a decision. -/
def StatusFits (data : Option ReceiptData) (results : List RuleResult)
    (status : ReceiptStatus) : Prop :=
  status = route data results ∨ status = .needsReview ∧ route data results = .autoApproved ∨
    status = .approved ∨ status = .rejected

/-- The rules are those of the present data on some day. -/
def Validated (receipt : Receipt) : Prop :=
  ∃ today duplicate, receipt.ruleResults = validate today receipt.currentData duplicate ∧
    ∃ status, receipt.status = some status ∧
      StatusFits receipt.currentData receipt.ruleResults status

def HasShape (receipt : Receipt) : ReceiptShape → Prop
  | .unprocessed => receipt.Unprocessed
  | .withoutData => receipt.WithoutData
  | .validated => receipt.Validated

theorem HasShape.unique {shape shape' : ReceiptShape} (h : receipt.HasShape shape)
    (h' : receipt.HasShape shape') : shape = shape' := by
  have hwithout : receipt.WithoutData → receipt.status ≠ none := by
    intro hwithout hnone
    have hstatus := hwithout.status
    simp [hnone] at hstatus
  have hvalidated : receipt.Validated → receipt.status ≠ none ∧ receipt.ruleResults ≠ [] := by
    intro hvalidated
    obtain ⟨today, duplicate, hrules, status, hstatus, -⟩ := hvalidated
    rw [hstatus, hrules]
    exact ⟨by simp, by simp [validate]⟩
  cases shape <;> cases shape' <;> first | rfl | exfalso
  · exact hwithout h' h.status
  · exact (hvalidated h').1 h.status
  · exact hwithout h h'.status
  · exact (hvalidated h').2 h.ruleResults
  · exact (hvalidated h).1 h'.status
  · exact (hvalidated h).2 h'.ruleResults

end Receipt

/-! ## One step -/

theorem ReceiptCase.Step.hasShape (h : Step employees operation x events x')
    (hread : x.receipt.reread = x.receipt) {shape : ReceiptShape}
    (hx : x.receipt.HasShape shape) : ∃ shape', x'.receipt.HasShape shape' := by
  cases h with
  | claimed | released | recovered | retryScheduled | duplicateDeferred => exact ⟨shape, hx⟩
  | @qualityRejected _ _ quality =>
      refine ⟨.withoutData, rfl, rfl, ?_⟩
      by_cases hquality : quality.status = .needsRecapture
      · left
        simp [Receipt.flushed, Receipt.completeExtraction, rejectedStatus, hquality]
      · right; left
        simp [Receipt.flushed, Receipt.completeExtraction, rejectedStatus, hquality]
  | extracted _ _ _ hrules => exact ⟨.validated, _, _, hrules, _, rfl, .inl rfl⟩
  | failed => exact ⟨.withoutData, rfl, rfl, .inr (.inr (.inl rfl))⟩
  | @duplicateMarked _ _ _ previous next _ hstatus hnext =>
      refine ⟨.validated, _, true, rfl, _, rfl, ?_⟩
      by_cases hterminal : isTerminal previous = true
      · -- a decision stays
        rw [if_pos hterminal] at hnext
        rw [hnext]
        right; right
        simpa [isTerminal] using hterminal
      · rw [if_neg hterminal] at hnext
        exact .inl hnext
  | corrected =>
      refine ⟨.validated, _, _, rfl, _, rfl, ?_⟩
      simp only [ReceiptCommandService.corrected, Receipt.flushed, Receipt.updateData]
      unfold correctedStatus
      simp only
      split
      · rename_i hreview
        exact .inr (.inl ⟨rfl, hreview.1⟩)
      · exact .inl rfl
  | @decided _ _ _ decision _ _ _ _ _ _ heditable happroval =>
      rw [hread] at happroval ⊢
      cases shape with
      | unprocessed =>
          -- nothing is decided before the extraction has ended
          obtain ⟨status, hstatus, -, -⟩ := some_status_of_editable heditable
          exact absurd (hstatus.symm.trans hx.status) (by simp)
      | withoutData =>
          refine ⟨.withoutData, hx.currentData, hx.ruleResults, ?_⟩
          cases decision with
          | approve =>
              obtain ⟨-, -, data, hdata, -⟩ := validateApproval_eq_ok (happroval rfl)
              exact absurd (hdata.symm.trans hx.currentData) (by simp)
          | reject => exact .inr (.inr (.inr rfl))
      | validated =>
          obtain ⟨today, duplicate, hrules, -⟩ := hx
          refine ⟨.validated, today, duplicate, hrules, _, rfl, ?_⟩
          cases decision with
          | approve => exact .inr (.inr (.inl rfl))
          | reject => exact .inr (.inr (.inr rfl))

/-! ## Whole runs -/

theorem Run.hasShape (hrun : Run P employees trace) (hread : ReadsBack trace x.receipt.id)
    (hx : (current employees trace).HasCase x) : ∃ shape, x.receipt.HasShape shape := by
  induction trace generalizing x with
  | nil => exact absurd hx.receipt (by simp [current, Database.initial, Database.receiptRow])
  | cons commit trace ih =>
      obtain ⟨hrun', -, hpermitted, -⟩ := hrun.head
      rcases hrun.created_or_moved hx with
        ⟨_, _, _, _, _, _, _, _, hoperation, rfl, -⟩ | ⟨y, hy, hmoves⟩
      · rw [hoperation] at hpermitted
        obtain ⟨call, contentType, now, rfl, -, -⟩ := hpermitted
        exact ⟨.unprocessed, rfl, rfl, rfl⟩
      · rw [hmoves.sameReceipt.id] at hread
        obtain ⟨shape, hshape⟩ := ih hrun' hread.tail hy
        rcases hmoves with ⟨rfl, -⟩ | hstep
        · exact ⟨shape, hshape⟩
        · exact hstep.hasShape (hread.tail.reread hy rfl) hshape

/-! ## Automatic approval -/

variable {today : LocalDate} {data : ReceiptData} {duplicate : Bool}

/-- The rules that a receipt must pass to be approved without a reviewer, in
terms of its data. -/
structure ReceiptData.Sound (today : LocalDate) (data : ReceiptData) : Prop where
  shopName : ∃ shopName, data.shopName = some shopName
  date : ∃ date, data.date = some date ∧ date ≤ today
  totalAmount : ∃ total, data.totalAmount = some total ∧ 0 < total.toRat ∧
    ∀ amounts : List BigDecimal, data.lineItems ≠ [] →
      data.lineItems.map LineItem.amount = amounts.map some →
      (amounts.map BigDecimal.toRat).sum = total.toRat
  businessRegistrationNumber : ∀ number, data.businessRegistrationNumber = some number →
    BusinessRegistrationNumberValidator.isValid number = true

/-- No rule fails exactly when the data is sound and no duplicate was reported. -/
theorem sound_iff_validate :
    (∀ result ∈ validate today (some data) duplicate, result.failed = false) ↔
      data.Sound today ∧ duplicate = false := by
  have hsome : ∀ {α : Type} {value : Option α},
      value.isNone = false ↔ ∃ present, value = some present := by
    intro α value
    cases value <;> simp
  simp only [validate, Option.getD_some, List.forall_mem_cons, required_failed, hsome,
    dateRule_passes, amountRule_passes, itemTotalRule_passes, businessNumberRule_passes,
    duplicateRule_failed]
  constructor
  · intro h
    obtain ⟨hname, ⟨date, hdate⟩, ⟨total, htotal⟩, hfuture, hamount, hitems, hnumber,
      hduplicate, -⟩ := h
    exact ⟨⟨hname, ⟨date, hdate, hfuture date hdate⟩, ⟨total, htotal, hamount total htotal,
      fun amounts => hitems total amounts htotal⟩, hnumber⟩, hduplicate⟩
  · intro h
    obtain ⟨⟨hname, ⟨date, hdate, hfuture⟩, ⟨total, htotal, hamount, hitems⟩, hnumber⟩,
      hduplicate⟩ := h
    refine ⟨hname, ⟨date, hdate⟩, ⟨total, htotal⟩, ?_, ?_, ?_, hnumber, hduplicate, by simp⟩
    · intro present hpresent
      cases hdate.symm.trans hpresent
      exact hfuture
    · intro present hpresent
      cases htotal.symm.trans hpresent
      exact hamount
    · intro present amounts hpresent
      cases htotal.symm.trans hpresent
      exact hitems amounts

/-- Sound data is approved automatically, and no other data is. -/
theorem route_validate_iff_sound :
    route (some data) (validate today (some data) duplicate) = .autoApproved ↔
      data.Sound today ∧ duplicate = false := by
  rw [route_eq_autoApproved, ← sound_iff_validate]
  constructor
  · intro h
    obtain ⟨_, hdata, -, hpass⟩ := h
    exact hpass
  · intro hpass
    obtain ⟨shopName, hname⟩ := (sound_iff_validate.mp hpass).1.shopName
    exact ⟨data, rfl, by simp [hname], hpass⟩

/-- An automatic approval rests on rules that are those of the present data. -/
theorem Receipt.HasShape.autoApproved {shape : ReceiptShape} (h : receipt.HasShape shape)
    (hstatus : receipt.status = some .autoApproved) :
    ∃ today duplicate data, receipt.currentData = some data ∧
      receipt.ruleResults = validate today (some data) duplicate ∧
      (∀ result ∈ receipt.ruleResults, result.failed = false) ∧ data.Sound today := by
  cases shape with
  | unprocessed => exact absurd (hstatus.symm.trans h.status) (by simp)
  | withoutData =>
      have hwithout := h.status
      simp [hstatus] at hwithout
  | validated =>
      obtain ⟨today, duplicate, hrules, status, hsome, hfits⟩ := h
      rw [hstatus] at hsome
      cases hsome
      rcases hfits with hroute | ⟨hreview, -⟩ | happroved | hrejected
      · obtain ⟨data, hdata, -, hpass⟩ := route_eq_autoApproved.mp hroute.symm
        rw [hdata] at hrules
        refine ⟨today, duplicate, data, hdata, hrules, hpass, ?_⟩
        rw [hrules] at hpass
        exact (sound_iff_validate.mp hpass).1
      · exact absurd hreview (by simp)
      · exact absurd happroved (by simp)
      · exact absurd hrejected (by simp)

/-- In every reachable state each receipt whose data reads back as written has
exactly one of the three shapes, and an automatically approved one carries the
results of its present data, none of them a failure, so that its data is sound. -/
theorem receipts_coherent (hrun : Run P employees trace) {id : Long}
    (hread : ReadsBack trace id)
    (hreceipt : (current employees trace).receiptRow id = some receipt) :
    (∃! shape, receipt.HasShape shape) ∧
    (receipt.status = some .autoApproved →
      ∃ today duplicate data, receipt.currentData = some data ∧
        receipt.ruleResults = validate today (some data) duplicate ∧
        (∀ result ∈ receipt.ruleResults, result.failed = false) ∧ data.Sound today) := by
  obtain ⟨x, hx, rfl⟩ := hrun.current_refines.paired.of_receipt hreceipt
  rw [← Database.id_of_receiptRow hreceipt] at hread
  obtain ⟨shape, hshape⟩ := hrun.hasShape hread hx
  exact ⟨⟨shape, hshape, fun _ hother => hother.unique hshape⟩, hshape.autoApproved⟩

/-! ## A run with an automatic approval -/

namespace Sample

/-- An image is submitted and extracted, and all rules pass. -/
def extractionOperations : List Operation :=
  [intakeOf (uploadOf "key-1" imageA) 1 1 0,
    claimAll 1 "token",
    .completeExtraction (firstClaim 1 "token") ⟨some goodData, [], []⟩ 2 0 2]

def extractionTrace : List Commit := (replay platform staff [] extractionOperations).getD []

theorem extractionTrace_run : Run platform staff extractionTrace := by
  refine run_of_replay extractionOperations .nil ?_ rfl
  simp only [extractionOperations, List.forall_mem_cons]
  exact ⟨intakeOf_permitted .., trivial, trivial, by simp⟩

end Sample

open Sample in
/-- The extracted receipt is approved automatically, and its data is sound. -/
theorem extractionTrace_sound :
    ∃ receipt, (current staff extractionTrace).receiptRow 1 = some receipt ∧
      ∃ today, ∃ data, receipt.currentData = some data ∧ data.Sound today := by
  obtain ⟨receipt, hreceipt, hstatus⟩ : ∃ receipt,
      (current staff extractionTrace).receiptRow 1 = some receipt ∧
        receipt.status = some .autoApproved := ⟨_, rfl, rfl⟩
  obtain ⟨today, -, data, hdata, -, -, hsound⟩ :=
    (receipts_coherent extractionTrace_run (by decide) hreceipt).2 hstatus
  exact ⟨receipt, hreceipt, today, data, hdata, hsound⟩

end ReceiptReview
