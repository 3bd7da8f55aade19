import ReceiptReview.Results.Approval
import ReceiptReview.Results.Coherence

/-!
# The two gates

A receipt is approved by the rules or by a reviewer, and both gates ask for a
shop name, a date and a positive total.  They differ in one place.  The rules
only look for a missing name, and rely on the constructor of the data to make
blank names missing; but it tests the name before it trims it, and `isBlank` and
`trim` disagree on white space.  A name of control characters is kept, as an
empty text, and the reviewer's gate finds it blank.
-/

namespace ReceiptReview

open Java ReceiptCommandService ValidationEngine ReceiptStatusRouter

variable {today : LocalDate} {duplicate : Bool} {receipt : Receipt} {data : ReceiptData}

/-- The name is not blank, but what trimming leaves of it is. -/
def SlipsThrough (shopName : Option JString) : Prop :=
  ∃ name, shopName = some name ∧ name.isBlank = false ∧ name.trim.isBlank = true

/-- What a reviewer is asked for, on a receipt that waits for the review. -/
theorem validateApproval_iff_complete (hstatus : receipt.status = some .needsReview)
    (hdata : receipt.currentData = some data) :
    validateApproval receipt = .ok () ↔ data.Complete := by
  constructor
  · intro hok
    obtain ⟨-, -, present, hpresent, hname, hdate, hamount⟩ := validateApproval_eq_ok hok
    cases hdata.symm.trans hpresent
    exact ⟨hname, hdate, hamount⟩
  · intro hcomplete
    obtain ⟨shopName, hname, hblank⟩ := hcomplete.shopName
    obtain ⟨date, hdate⟩ := hcomplete.date
    obtain ⟨totalAmount, htotal, hpositive⟩ := hcomplete.totalAmount
    simp [validateApproval, hstatus, hdata, hname, hblank, hdate, htotal, hpositive]

/-- Sound data is complete, the text of its name apart. -/
theorem ReceiptData.Sound.complete_iff (h : data.Sound today) :
    data.Complete ↔ ∀ name, data.shopName = some name → name.isBlank = false := by
  constructor
  · intro hcomplete name hname
    obtain ⟨shopName, hsome, hblank⟩ := hcomplete.shopName
    cases hname.symm.trans hsome
    exact hblank
  · intro hblank
    obtain ⟨shopName, hname⟩ := h.shopName
    obtain ⟨date, hdate, -⟩ := h.date
    obtain ⟨total, htotal, hpositive, -⟩ := h.totalAmount
    exact ⟨⟨shopName, hname, hblank shopName hname⟩, ⟨date, hdate⟩,
      ⟨total, htotal, BigDecimal.signum_pos_iff.mpr hpositive⟩⟩

/-- The constructor keeps a blank name exactly when it slips through the test. -/
theorem blank_normalize_iff {shopName : Option JString} :
    (∀ name, ReceiptData.normalize shopName = some name → name.isBlank = false) ↔
      ¬ SlipsThrough shopName := by
  cases shopName with
  | none => simp [ReceiptData.normalize, SlipsThrough]
  | some name =>
      by_cases hblank : name.isBlank = true
      · simp [ReceiptData.normalize, SlipsThrough, hblank]
      · rw [Bool.not_eq_true] at hblank
        simp [ReceiptData.normalize, SlipsThrough, hblank]

/-- The automatic gate is at least as strict as the reviewer's gate on a
receipt exactly when its name does not slip through the test for blank names, or
the rest of the receipt is not approved anyway. -/
theorem automatic_gate_iff (today : LocalDate) (shopName : Option JString)
    (date : Option LocalDate) (totalAmount : Option BigDecimal)
    (businessRegistrationNumber paymentMethod : Option JString)
    (lineItems : Option (List LineItem)) (duplicate : Bool) :
    let data := ReceiptData.of shopName date totalAmount businessRegistrationNumber paymentMethod
      lineItems
    (route (some data) (validate today (some data) duplicate) = .autoApproved →
      ∀ receipt : Receipt, receipt.status = some .needsReview → receipt.currentData = some data →
        validateApproval receipt = .ok ()) ↔
      ¬ (SlipsThrough shopName ∧ data.Sound today ∧ duplicate = false) := by
  intro data
  have hname : data.shopName = ReceiptData.normalize shopName := rfl
  rw [route_validate_iff_sound]
  constructor
  · intro hgate hslips
    obtain ⟨hslips, hsound, hduplicate⟩ := hslips
    -- any receipt with this data will do
    have hok := hgate ⟨hsound, hduplicate⟩
      { Receipt.new [] [] none none 0 (some data) (some .needsReview) [] 0 with id := 1 } rfl rfl
    rw [validateApproval_iff_complete rfl rfl, hsound.complete_iff, hname] at hok
    exact blank_normalize_iff.mp hok hslips
  · intro hnot hsound receipt hstatus hdata
    rw [validateApproval_iff_complete hstatus hdata, hsound.1.complete_iff, hname,
      blank_normalize_iff]
    exact fun hslips => hnot ⟨hslips, hsound⟩

/-- A receipt of one won by a shop named U+0001 is approved automatically; a
reviewer may not approve it. -/
theorem control_character_name :
    ¬ ∀ (today : LocalDate) (shopName : Option JString) (date : Option LocalDate)
      (totalAmount : Option BigDecimal) (businessRegistrationNumber paymentMethod : Option JString)
      (lineItems : Option (List LineItem)) (duplicate : Bool) (receipt : Receipt),
      let data := ReceiptData.of shopName date totalAmount businessRegistrationNumber
        paymentMethod lineItems
      route (some data) (validate today (some data) duplicate) = .autoApproved →
      receipt.status = some .needsReview → receipt.currentData = some data →
      validateApproval receipt = .ok () := by
  intro hgate
  have hok := hgate 0 (some [1]) (some 0) (some ⟨1, 0⟩) none none none false
    { Receipt.new [] [] none none 0 (some (.of (some [1]) (some 0) (some ⟨1, 0⟩) none none none))
      (some .needsReview) [] 0 with id := 1 } (by decide) rfl rfl
  exact absurd hok (by decide)

end ReceiptReview
