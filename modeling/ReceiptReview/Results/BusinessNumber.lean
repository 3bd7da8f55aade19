import Mathlib.Algebra.BigOperators.Group.List.Basic
import Mathlib.Data.ZMod.Basic
import Mathlib.Logic.Relation
import ReceiptReview.Model.Validation

/-!
# The check digit of a business registration number

A check sum whose positions contribute injectively notices that one symbol was
replaced.  The ninth digit has weight 5, which is not invertible modulo 10; its
carry makes the contribution injective again.
-/

namespace Checksum

variable {Symbol G : Type*} [AddCommGroup G]

/-- The sum of what the symbols contribute at their positions. -/
def total (contribution : ℕ → Symbol → G) (symbols : List Symbol) : G :=
  (symbols.mapIdx contribution).sum

variable {contribution : ℕ → Symbol → G}

theorem total_append (left right : List Symbol) :
    total contribution (left ++ right) = total contribution left +
      total (fun position => contribution (position + left.length)) right := by
  rw [total, List.mapIdx_append, List.sum_append]
  rfl

theorem total_cons (symbol : Symbol) (symbols : List Symbol) :
    total contribution (symbol :: symbols) =
      contribution 0 symbol + total (fun position => contribution (position + 1)) symbols := by
  rw [total, List.mapIdx_cons, List.sum_cons]
  rfl

/-- Two words that differ at one position have the same total when the symbols at that position
contribute the same. -/
theorem total_replace (left right : List Symbol) (symbol symbol' : Symbol) :
    total contribution (left ++ symbol :: right) = total contribution (left ++ symbol' :: right) ↔
      contribution left.length symbol = contribution left.length symbol' := by
  rw [total_append, total_append, total_cons, total_cons, add_right_inj, add_left_inj]
  simp only [Nat.zero_add]

end Checksum

namespace ReceiptReview

open Java

namespace BusinessRegistrationNumberValidator

/-! ## The digits -/

/-- `[0-9]` -/
def isAsciiDigit (unit : UInt16) : Bool := 0x30 ≤ unit && unit ≤ 0x39

variable {value left right : JString} {unit : UInt16}

theorem digits_eq : digits value =
    (value.filter isAsciiDigit).map fun unit => unit.toNat - 0x30 := rfl

theorem digits_append : digits (left ++ right) = digits left ++ digits right := by
  rw [digits_eq, List.filter_append, List.map_append]
  rfl

theorem digits_cons (h : isAsciiDigit unit = true) :
    digits (unit :: value) = (unit.toNat - 0x30) :: digits value := by
  rw [digits_eq, List.filter_cons_of_pos h, List.map_cons, ← digits_eq]

theorem digits_cons_of_not (h : isAsciiDigit unit = false) :
    digits (unit :: value) = digits value := by
  rw [digits_eq, List.filter_cons_of_neg (Bool.eq_false_iff.mp h), ← digits_eq]

theorem toNat_of_digit (h : isAsciiDigit unit = true) : 0x30 ≤ unit.toNat ∧ unit.toNat ≤ 0x39 := by
  simp only [isAsciiDigit, Bool.and_eq_true, decide_eq_true_eq] at h
  exact ⟨UInt16.le_iff_toNat_le.mp h.1, UInt16.le_iff_toNat_le.mp h.2⟩

theorem digits_lt {digit : ℕ} (h : digit ∈ digits value) : digit < 10 := by
  obtain ⟨unit, hunit, rfl⟩ := List.mem_map.mp h
  have hrange := toNat_of_digit (List.mem_filter.mp hunit).2
  omega

/-! ## The check sum -/

/-- What a digit adds to the check sum.  The ninth product is counted with its carry, and the
check digit itself completes the sum to a multiple of ten. -/
def contribution (position digit : ℕ) : ZMod 10 :=
  if position < 8 then (digit * weights.getD position 0 : ℕ)
  else if position = 8 then (digit * 5 + digit * 5 / 10 : ℕ)
  else digit

theorem contribution_injective : ∀ position < 10, ∀ digit < 10, ∀ digit' < 10,
    contribution position digit = contribution position digit' → digit = digit' := by
  decide

theorem expectedCheckDigit_iff {sum digit : ℕ} (h : digit < 10) :
    (10 - sum % 10) % 10 = digit ↔ ((sum + digit : ℕ) : ZMod 10) = 0 := by
  rw [ZMod.natCast_eq_zero_iff]
  omega

/-- A number is valid when it has ten digits, which are not all the same, and a check sum of 0. -/
theorem isValid_iff : isValid value = true ↔ (digits value).length = 10 ∧
    (digits value).dedup.length ≠ 1 ∧ Checksum.total contribution (digits value) = 0 := by
  have hlt : ∀ digit ∈ digits value, digit < 10 := fun _ => digits_lt
  unfold isValid
  generalize digits value = digits at hlt ⊢
  by_cases hlength : digits.length = 10
  · match digits, hlength with
    | [a, b, c, d, e, f, g, h, i, check], _ =>
      have hcheck : check < 10 := hlt check (by simp)
      have hsum : Checksum.total contribution [a, b, c, d, e, f, g, h, i, check] =
          (((List.zipWith (· * ·) [a, b, c, d, e, f, g, h, i] weights).sum + i * 5 / 10 +
            check : ℕ) : ZMod 10) := by
        simp [Checksum.total, contribution, weights]
        ring
      rw [hsum, ← expectedCheckDigit_iff hcheck]
      by_cases hsame : [a, b, c, d, e, f, g, h, i, check].dedup.length = 1
      · simp [hsame]
      · simp [hsame]
  · simp [hlength]

/-- A digit of the text is a digit of the number, at the position that the digits before it
give. -/
theorem isValid_digit (h : isAsciiDigit unit = true) :
    isValid (left ++ unit :: right) = true ↔
      (digits left).length + (digits right).length = 9 ∧
        (digits left ++ (unit.toNat - 0x30) :: digits right).dedup.length ≠ 1 ∧
        Checksum.total contribution (digits left ++ (unit.toNat - 0x30) :: digits right) = 0 := by
  rw [isValid_iff, digits_append, digits_cons h, List.length_append, List.length_cons]
  exact and_congr_left' (by omega)

/-! ## Errors and separators -/

/-- One character that is not a digit has been written into a text. -/
inductive Separated : JString → JString → Prop
  | insert (left right : JString) (unit : UInt16) (h : isAsciiDigit unit = false) :
      Separated (left ++ right) (left ++ unit :: right)

theorem Separated.digits_eq {value value' : JString} (h : Separated value value') :
    digits value = digits value' := by
  obtain ⟨left, right, unit, hunit⟩ := h
  rw [digits_append, digits_append, digits_cons_of_not hunit]

/-- Any number of separators is inserted and deleted. -/
theorem digits_of_separated {value value' : JString}
    (h : Relation.EqvGen Separated value value') : digits value = digits value' := by
  induction h with
  | rel _ _ hinsert => exact hinsert.digits_eq
  | refl => rfl
  | symm _ _ _ ih => exact ih.symm
  | trans _ _ _ _ _ ih ih' => exact ih.trans ih'

/-- One wrong digit makes a valid number invalid. -/
theorem isValid_replace {unit' : UInt16} (hunit : isAsciiDigit unit = true)
    (hunit' : isAsciiDigit unit' = true) (hne : unit ≠ unit')
    (hvalid : isValid (left ++ unit :: right) = true) :
    isValid (left ++ unit' :: right) = false := by
  obtain ⟨hlength, -, hsum⟩ := (isValid_digit hunit).mp hvalid
  refine Bool.eq_false_iff.mpr fun hvalid' => hne ?_
  obtain ⟨-, -, hsum'⟩ := (isValid_digit hunit').mp hvalid'
  have hsame := (Checksum.total_replace _ _ _ _).mp (hsum.trans hsum'.symm)
  have hrange := toNat_of_digit hunit
  have hrange' := toNat_of_digit hunit'
  have hdigit := contribution_injective _ (by omega) _ (by omega) _ (by omega) hsame
  apply UInt16.toNat_inj.mp
  omega

/-- The check digit notices every wrong digit, and separators do not matter. -/
theorem checksum_detects_and_ignores :
    (∀ (left right : JString) (unit unit' : UInt16), isAsciiDigit unit = true →
      isAsciiDigit unit' = true → unit ≠ unit' → isValid (left ++ unit :: right) = true →
        isValid (left ++ unit' :: right) = false) ∧
    ∀ value value' : JString, Relation.EqvGen Separated value value' →
      isValid value = isValid value' := by
  constructor
  · intro left right unit unit' hunit hunit' hne hvalid
    exact isValid_replace hunit hunit' hne hvalid
  · intro value value' hseparated
    rw [Bool.eq_iff_iff, isValid_iff, isValid_iff, digits_of_separated hseparated]

theorem checksum_detects_and_ignores_example :
    isValid (.ofString "220-81-62517") = true ∧ isValid (.ofString "220-81-62527") = false ∧
      isValid (.ofString "2208162517") = isValid (.ofString "220-8162517") := by
  refine ⟨by decide, ?_, ?_⟩
  · exact checksum_detects_and_ignores.1 (.ofString "220-81-625") (.ofString "7") 0x31 0x32
      (by decide) (by decide) (by decide) (by decide)
  · exact checksum_detects_and_ignores.2 _ _
      (.rel _ _ (.insert (.ofString "220") (.ofString "8162517") 0x2D (by decide)))

end BusinessRegistrationNumberValidator

end ReceiptReview
