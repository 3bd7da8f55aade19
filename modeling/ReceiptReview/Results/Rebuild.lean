import ReceiptReview.Results.Gates

/-!
# Receipt data that is built again

The data of a receipt is stored as JSON and read back through the constructor
that has built it, so the constructor runs on its own results.  It should be the
identity there.  It is not on a text that slips through the test for blank
texts: such a text is kept as what trimming leaves of it, and the second run
makes it missing.
-/

namespace ReceiptReview

open Java ValidationEngine ReceiptStatusRouter

/-- What the corrections neither set nor clear is the same before and after. -/
structure FieldCorrections.LeaveTheRest (corrections : FieldCorrections)
    (before after : ReceiptData) : Prop where
  shopName : corrections.shopName = none → "shopName" ∉ corrections.clearFields →
    after.shopName = before.shopName
  date : corrections.date = none → "date" ∉ corrections.clearFields → after.date = before.date
  totalAmount : corrections.totalAmount = none → "totalAmount" ∉ corrections.clearFields →
    after.totalAmount = before.totalAmount
  businessRegistrationNumber : corrections.businessRegistrationNumber = none →
    "businessRegistrationNumber" ∉ corrections.clearFields →
    after.businessRegistrationNumber = before.businessRegistrationNumber
  paymentMethod : corrections.paymentMethod = none →
    "paymentMethod" ∉ corrections.clearFields → after.paymentMethod = before.paymentMethod
  lineItems : corrections.lineItems = none → "lineItems" ∉ corrections.clearFields →
    after.lineItems = before.lineItems

/-- Stored data keeps its value, its evaluation and its untouched fields. -/
structure ReceiptData.Stable (data : ReceiptData) : Prop where
  rebuilt : data.rebuild = data
  validated : ∀ today duplicate,
    validate today (some data.rebuild) duplicate = validate today (some data) duplicate
  routed : ∀ results, route (some data.rebuild) results = route (some data) results
  corrected : ∀ corrections : FieldCorrections,
    corrections.LeaveTheRest data (corrections.applyTo (some data))

variable {value : Option JString} {data : ReceiptData} {corrections : FieldCorrections}

/-! ## Normalization -/

theorem normalize_trimmed (s : JString) :
    ReceiptData.normalize (some s.trim) = if s.trim.isBlank then none else some s.trim := by
  simp only [ReceiptData.normalize, JString.trim_trim]

/-- Normalizing twice is normalizing once, but for a text that slips through. -/
theorem normalize_normalize_iff :
    ReceiptData.normalize (ReceiptData.normalize value) = ReceiptData.normalize value ↔
      ¬ SlipsThrough value := by
  cases value with
  | none => simp [ReceiptData.normalize, SlipsThrough]
  | some text =>
      by_cases hblank : text.isBlank = true
      · simp [ReceiptData.normalize, SlipsThrough, hblank]
      · have hnormal : ReceiptData.normalize (some text) = some text.trim := if_neg hblank
        rw [hnormal, normalize_trimmed]
        rw [Bool.not_eq_true] at hblank
        by_cases htrimmed : text.trim.isBlank = true
        · simp [SlipsThrough, hblank, htrimmed]
        · simp [SlipsThrough, htrimmed]

theorem ReceiptData.rebuild_eq_iff : data.rebuild = data ↔
    normalize data.shopName = data.shopName ∧
      normalize data.businessRegistrationNumber = data.businessRegistrationNumber ∧
        normalize data.paymentMethod = data.paymentMethod := by
  rw [ReceiptData.ext_iff]
  simp only [rebuild, of, Option.getD_some, true_and, and_true]

/-! ## Corrections -/

theorem FieldCorrections.corrected_of_untouched {α : Type} {field : String}
    {sent current : Option α} (hsent : sent = none) (hclear : field ∉ corrections.clearFields) :
    corrections.corrected field sent current = current := by
  simp [FieldCorrections.corrected, hsent, hclear]

/-- A correction that is applied to a fixed point of the constructor leaves the rest alone. -/
theorem FieldCorrections.applyTo_leaves (h : data.rebuild = data) :
    corrections.LeaveTheRest data (corrections.applyTo (some data)) := by
  obtain ⟨hshop, hnumber, hpayment⟩ := ReceiptData.rebuild_eq_iff.mp h
  constructor
  · intro hsent hclear
    simpa [applyTo, ReceiptData.of, corrected_of_untouched hsent hclear] using hshop
  · intro hsent hclear
    exact corrected_of_untouched hsent hclear
  · intro hsent hclear
    exact corrected_of_untouched hsent hclear
  · intro hsent hclear
    simpa [applyTo, ReceiptData.of, corrected_of_untouched hsent hclear] using hnumber
  · intro hsent hclear
    simpa [applyTo, ReceiptData.of, corrected_of_untouched hsent hclear] using hpayment
  · intro hsent hclear
    simp [applyTo, ReceiptData.of, hsent, hclear]

theorem ReceiptData.stable_iff : data.Stable ↔ data.rebuild = data := by
  constructor
  · exact Stable.rebuilt
  · intro h
    refine ⟨h, ?_, ?_, fun _ => FieldCorrections.applyTo_leaves h⟩ <;> simp [h]

/-- Data that the constructor has built is stable exactly when none of its three texts is blank
only after it is trimmed. -/
theorem rebuild_stable_iff (shopName : Option JString) (date : Option LocalDate)
    (totalAmount : Option BigDecimal) (businessRegistrationNumber paymentMethod : Option JString)
    (lineItems : Option (List LineItem)) :
    (ReceiptData.of shopName date totalAmount businessRegistrationNumber paymentMethod
      lineItems).Stable ↔
      ¬ SlipsThrough shopName ∧ ¬ SlipsThrough businessRegistrationNumber ∧
        ¬ SlipsThrough paymentMethod := by
  rw [ReceiptData.stable_iff, ReceiptData.rebuild_eq_iff]
  exact and_congr normalize_normalize_iff
    (and_congr normalize_normalize_iff normalize_normalize_iff)

/-- The shop name U+0001 is stored as an empty text and read back as missing. -/
theorem control_character_is_lost :
    ¬ ∀ (shopName : Option JString) (date : Option LocalDate) (totalAmount : Option BigDecimal)
      (businessRegistrationNumber paymentMethod : Option JString)
      (lineItems : Option (List LineItem)),
      (ReceiptData.of shopName date totalAmount businessRegistrationNumber paymentMethod
        lineItems).Stable := by
  intro hstable
  have hrebuilt := (hstable (some [1]) none none none none none).rebuilt
  exact absurd hrebuilt (by decide)

end ReceiptReview
