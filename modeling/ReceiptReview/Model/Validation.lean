import Mathlib.Algebra.Ring.Nat
import ReceiptReview.Model.Receipt

/-!
# Validation and routing

The deterministic rules of `ValidationEngine` and the routing of their results
to a business status.  `today` is the calendar date of the clock at the moment
of the evaluation.
-/

namespace ReceiptReview

open Java

/-! ## Business registration numbers -/

namespace BusinessRegistrationNumberValidator

def weights : List ℕ := [1, 3, 7, 1, 3, 7, 1, 3, 5]

/-- `value.replaceAll("[^0-9]", "")`, with each digit as its value. -/
def digits (value : JString) : List ℕ :=
  (value.filter fun unit => 0x30 ≤ unit && unit ≤ 0x39).map fun unit => unit.toNat - 0x30

def isValid (value : JString) : Bool :=
  let digits := digits value
  if digits.length ≠ 10 then false
  else if digits.dedup.length = 1 then false
  else
    let sum := (List.zipWith (· * ·) (digits.take 9) weights).sum
    let ninthProduct := digits.getD 8 0 * 5
    let sum := sum + ninthProduct / 10
    let expectedCheckDigit := (10 - sum % 10) % 10
    expectedCheckDigit = digits.getD 9 0

end BusinessRegistrationNumberValidator

/-! ## Rules -/

namespace ValidationEngine

def pass (code message : String) : RuleResult := ⟨code, .pass, message⟩

def fail (code message : String) : RuleResult := ⟨code, .fail, message⟩

def notApplicable (code message : String) : RuleResult := ⟨code, .notApplicable, message⟩

def required {α : Type} (code : String) (value : Option α) (label : String) : RuleResult :=
  match value with
  | none => fail code (label ++ " 필드가 없습니다.")
  | some _ => pass code (label ++ " 필드가 존재합니다.")

def dateRule (today : LocalDate) (date : Option LocalDate) : RuleResult :=
  match date with
  | none => notApplicable "DATE_NOT_FUTURE" "거래일이 없어 검사하지 않았습니다."
  | some date =>
      if today < date then fail "DATE_NOT_FUTURE" "거래일이 현재 날짜보다 미래입니다."
      else pass "DATE_NOT_FUTURE" "거래일이 유효합니다."

def amountRule (amount : Option BigDecimal) : RuleResult :=
  match amount with
  | none => notApplicable "TOTAL_AMOUNT_POSITIVE" "총액이 없어 검사하지 않았습니다."
  | some amount =>
      if amount.signum ≤ 0 then fail "TOTAL_AMOUNT_POSITIVE" "총액은 0보다 커야 합니다."
      else pass "TOTAL_AMOUNT_POSITIVE" "총액이 유효합니다."

def itemTotalRule (data : ReceiptData) : RuleResult :=
  match data.lineItems, data.totalAmount with
  | [], _ | _, none => notApplicable "ITEM_TOTAL_MATCH" "품목 또는 총액이 없어 검사하지 않았습니다."
  | lineItems, some totalAmount =>
      if lineItems.any (fun item => item.amount.isNone) then
        notApplicable "ITEM_TOTAL_MATCH" "금액을 읽지 못한 품목이 있어 검사하지 않았습니다."
      else
        let sum := (lineItems.filterMap LineItem.amount).foldl BigDecimal.add BigDecimal.zero
        if sum.compareTo totalAmount = .eq then
          pass "ITEM_TOTAL_MATCH" "품목 합계와 총액이 일치합니다."
        else fail "ITEM_TOTAL_MATCH" "품목 합계와 총액이 일치하지 않습니다."

def businessNumberRule (number : Option JString) : RuleResult :=
  match number with
  | none => notApplicable "BUSINESS_NUMBER_CHECKSUM" "사업자등록번호가 없어 검사하지 않았습니다."
  | some number =>
      if BusinessRegistrationNumberValidator.isValid number then
        pass "BUSINESS_NUMBER_CHECKSUM" "사업자등록번호 체크섬이 유효합니다."
      else fail "BUSINESS_NUMBER_CHECKSUM" "사업자등록번호 형식 또는 체크섬이 유효하지 않습니다."

def duplicateRule (duplicate : Bool) : RuleResult :=
  if duplicate then fail "DUPLICATE_SUBMISSION" "동일한 이미지가 이미 제출되었습니다."
  else pass "DUPLICATE_SUBMISSION" "중복 제출이 아닙니다."

def validate (today : LocalDate) (data : Option ReceiptData) (duplicate : Bool) :
    List RuleResult :=
  let data := data.getD .blank
  [required "SHOP_NAME_REQUIRED" data.shopName "상호",
    required "DATE_REQUIRED" data.date "거래일",
    required "TOTAL_AMOUNT_REQUIRED" data.totalAmount "총액",
    dateRule today data.date,
    amountRule data.totalAmount,
    itemTotalRule data,
    businessNumberRule data.businessRegistrationNumber,
    duplicateRule duplicate]

end ValidationEngine

/-! ## Routing -/

namespace ReceiptStatusRouter

def route (data : Option ReceiptData) (results : List RuleResult) : ReceiptStatus :=
  match data with
  | none => .manualEntry
  | some data =>
      if data.shopName.isNone && data.date.isNone && data.totalAmount.isNone then .manualEntry
      else if results.any RuleResult.failed then .needsReview
      else .autoApproved

end ReceiptStatusRouter

open ValidationEngine ReceiptStatusRouter

/-! ## When a rule does not fail -/

theorem required_failed {α : Type} {code label : String} {value : Option α} :
    (required code value label).failed = value.isNone := by
  cases value <;> rfl

theorem dateRule_passes {today : LocalDate} {date : Option LocalDate} :
    (dateRule today date).failed = false ↔ ∀ present, date = some present → present ≤ today := by
  cases date with
  | none => simp [dateRule, notApplicable, RuleResult.failed]
  | some date =>
      simp only [dateRule, Option.some.injEq, forall_eq']
      split
      · rename_i hfuture
        simp only [ValidationEngine.fail, RuleResult.failed]
        exact ⟨fun h => absurd h (by decide), fun h => absurd hfuture (Int.not_lt.mpr h)⟩
      · rename_i hfuture
        exact ⟨fun _ => Int.not_lt.mp hfuture, fun _ => rfl⟩

theorem amountRule_passes {amount : Option BigDecimal} :
    (amountRule amount).failed = false ↔ ∀ present, amount = some present → 0 < present.toRat := by
  cases amount with
  | none => simp [amountRule, notApplicable, RuleResult.failed]
  | some amount =>
      simp only [amountRule, Option.some.injEq, forall_eq', ← BigDecimal.signum_pos_iff]
      split
      · rename_i hsignum
        simp only [ValidationEngine.fail, RuleResult.failed]
        exact ⟨fun h => absurd h (by decide), fun h => absurd h (Int.not_lt.mpr hsignum)⟩
      · rename_i hsignum
        exact ⟨fun _ => Int.not_le.mp hsignum, fun _ => rfl⟩

theorem businessNumberRule_passes {number : Option JString} :
    (businessNumberRule number).failed = false ↔ ∀ present, number = some present →
      BusinessRegistrationNumberValidator.isValid present = true := by
  cases number with
  | none => simp [businessNumberRule, notApplicable, RuleResult.failed]
  | some number =>
      simp only [businessNumberRule, Option.some.injEq, forall_eq']
      split
      · rename_i hvalid
        exact ⟨fun _ => hvalid, fun _ => rfl⟩
      · rename_i hinvalid
        simp only [ValidationEngine.fail, RuleResult.failed]
        exact ⟨fun h => absurd h (by decide), fun h => absurd h hinvalid⟩

theorem duplicateRule_failed {duplicate : Bool} :
    (duplicateRule duplicate).failed = duplicate := by
  cases duplicate <;> rfl

/-- The items are compared with the total when each of them has an amount. -/
theorem itemTotalRule_passes {data : ReceiptData} :
    (itemTotalRule data).failed = false ↔ ∀ (total : BigDecimal) (amounts : List BigDecimal),
      data.totalAmount = some total → data.lineItems ≠ [] →
      data.lineItems.map LineItem.amount = amounts.map some →
      (amounts.map BigDecimal.toRat).sum = total.toRat := by
  unfold itemTotalRule
  split
  · exact ⟨fun _ _ _ _ hitems _ => absurd ‹data.lineItems = []› hitems, fun _ => rfl⟩
  · exact ⟨fun _ _ _ htotal _ _ => absurd (htotal.symm.trans ‹data.totalAmount = none›) (by simp),
      fun _ => rfl⟩
  · rename_i total htotal hitems
    have hread : ∀ amounts, data.lineItems.map LineItem.amount = amounts.map some →
        data.lineItems.filterMap LineItem.amount = amounts := by
      intro amounts hamounts
      calc data.lineItems.filterMap LineItem.amount
          = (data.lineItems.map LineItem.amount).filterMap id := by
            rw [List.filterMap_map, Function.id_comp]
        _ = (amounts.map some).filterMap id := by rw [hamounts]
        _ = amounts := by simp [List.filterMap_map]
    split
    · rename_i hmissing
      refine ⟨fun _ _ amounts _ _ hamounts => ?_, fun _ => rfl⟩
      -- an item without an amount is not among the amounts
      obtain ⟨item, hmem, hnone⟩ := List.any_eq_true.mp hmissing
      have hitem : item.amount ∈ amounts.map some := hamounts ▸ List.mem_map_of_mem hmem
      obtain ⟨amount, -, hamount⟩ := List.mem_map.mp hitem
      rw [← hamount] at hnone
      exact absurd hnone (by simp)
    · rename_i hpresent
      have hamounts : data.lineItems.map LineItem.amount =
          (data.lineItems.filterMap LineItem.amount).map some := by
        rw [List.map_filterMap_some_eq_filter_map_isSome, eq_comm, List.filter_eq_self]
        intro amount hmem
        obtain ⟨item, hitem, rfl⟩ := List.mem_map.mp hmem
        rw [← Option.not_isNone, Bool.not_eq_true']
        exact Bool.eq_false_iff.mpr fun hnone =>
          hpresent (List.any_eq_true.mpr ⟨item, hitem, hnone⟩)
      have hsum : (((data.lineItems.filterMap LineItem.amount).foldl BigDecimal.add
          BigDecimal.zero).compareTo total = .eq) ↔
          ((data.lineItems.filterMap LineItem.amount).map BigDecimal.toRat).sum = total.toRat := by
        rw [BigDecimal.compareTo_eq_iff, BigDecimal.toRat_foldl_add, BigDecimal.toRat_zero,
          zero_add]
      simp only [hsum]
      split
      · rename_i heq
        refine ⟨fun _ total' amounts htotal' _ hamounts' => ?_, fun _ => rfl⟩
        cases htotal.symm.trans htotal'
        rw [← hread amounts hamounts']
        exact heq
      · rename_i hne
        simp only [ValidationEngine.fail, RuleResult.failed]
        refine ⟨fun h => absurd h (by decide), fun h => absurd ?_ hne⟩
        exact h total _ htotal (fun hnil => hitems hnil) hamounts

/-! ## What the rules say about duplicates -/

@[simp] theorem required_code {α : Type} (code : String) (value : Option α) (label : String) :
    (required code value label).code = code := by
  cases value <;> rfl

@[simp] theorem dateRule_code (today : LocalDate) (date : Option LocalDate) :
    (dateRule today date).code = "DATE_NOT_FUTURE" := by
  unfold dateRule
  split
  · rfl
  · split <;> rfl

@[simp] theorem amountRule_code (amount : Option BigDecimal) :
    (amountRule amount).code = "TOTAL_AMOUNT_POSITIVE" := by
  unfold amountRule
  split
  · rfl
  · split <;> rfl

@[simp] theorem itemTotalRule_code (data : ReceiptData) :
    (itemTotalRule data).code = "ITEM_TOTAL_MATCH" := by
  unfold itemTotalRule
  split
  · rfl
  · rfl
  · split
    · rfl
    · simp only
      split <;> rfl

@[simp] theorem businessNumberRule_code (number : Option JString) :
    (businessNumberRule number).code = "BUSINESS_NUMBER_CHECKSUM" := by
  unfold businessNumberRule
  split
  · rfl
  · split <;> rfl

/-- The rules of an evaluation report a duplicate exactly when they were told of one. -/
@[simp] theorem duplicateFailed_validate (today : LocalDate) (data : Option ReceiptData)
    (duplicate : Bool) : duplicateFailed (validate today data duplicate) = duplicate := by
  cases duplicate <;>
    simp [duplicateFailed, validate, duplicateRule, RuleResult.failed, ValidationEngine.pass,
      ValidationEngine.fail]

/-- Results with a failed rule are never approved automatically. -/
theorem route_ne_autoApproved {data : Option ReceiptData} {results : List RuleResult}
    (h : duplicateFailed results = true) : route data results ≠ .autoApproved := by
  have hfailed : results.any RuleResult.failed = true := by
    obtain ⟨result, hmem, hresult⟩ := List.any_eq_true.mp h
    exact List.any_eq_true.mpr ⟨result, hmem, by
      simp only [Bool.and_eq_true] at hresult
      exact hresult.2⟩
  unfold route
  split
  · simp
  · rw [hfailed]
    split <;> simp

/-- Routing never takes a human decision. -/
theorem route_cases (data : Option ReceiptData) (results : List RuleResult) :
    route data results = .manualEntry ∨ route data results = .needsReview ∨
      route data results = .autoApproved := by
  unfold route
  split
  · exact .inl rfl
  · split
    · exact .inl rfl
    · split
      · exact .inr (.inl rfl)
      · exact .inr (.inr rfl)

/-- A receipt is approved automatically when something was read and no rule fails. -/
theorem route_eq_autoApproved {data : Option ReceiptData} {results : List RuleResult} :
    route data results = .autoApproved ↔ ∃ present, data = some present ∧
      (present.shopName.isNone && present.date.isNone && present.totalAmount.isNone) = false ∧
      ∀ result ∈ results, result.failed = false := by
  cases data with
  | none => simp [route]
  | some present =>
      have hnone : results.any RuleResult.failed = false ↔
          ∀ result ∈ results, result.failed = false := by simp
      simp only [route, Option.some.injEq, exists_eq_left', ← hnone]
      split
      · rename_i hempty
        simp [hempty]
      · rename_i hread
        rw [Bool.not_eq_true] at hread
        split <;> simp_all

theorem route_ne_approved {data : Option ReceiptData} {results : List RuleResult} :
    route data results ≠ .approved := by
  rcases route_cases data results with hroute | hroute | hroute <;> simp [hroute]

end ReceiptReview
