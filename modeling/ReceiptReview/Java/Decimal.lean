import Mathlib.Algebra.BigOperators.Group.List.Basic
import Mathlib.Algebra.Order.Field.Power
import Mathlib.Algebra.Order.Field.Rat
import Mathlib.Tactic.Ring

/-!
# Java decimals

`java.math.BigDecimal`: an unscaled integer and a scale, with the value
`unscaledValue · 10 ^ (-scale)`.  Two decimals of equal value may differ in
their scale; `compareTo` ignores the difference.
-/

namespace Java

/-- A `BigDecimal`. -/
structure BigDecimal where
  unscaledValue : ℤ
  scale : ℤ
  deriving DecidableEq, Repr

namespace BigDecimal

/-- `BigDecimal.ZERO`. -/
def zero : BigDecimal := ⟨0, 0⟩

/-- The unscaled value at a scale that is at least the decimal's own. -/
def unscaledAt (d : BigDecimal) (scale : ℤ) : ℤ :=
  d.unscaledValue * 10 ^ (scale - d.scale).toNat

def signum (d : BigDecimal) : ℤ := d.unscaledValue.sign

/-- The sum, at the larger of the two scales. -/
def add (a b : BigDecimal) : BigDecimal :=
  let scale := max a.scale b.scale
  ⟨a.unscaledAt scale + b.unscaledAt scale, scale⟩

/-- The order of the values, whatever the scales. -/
def compareTo (a b : BigDecimal) : Ordering :=
  let scale := max a.scale b.scale
  compare (a.unscaledAt scale) (b.unscaledAt scale)

/-! ## Values -/

/-- The number that a decimal denotes. -/
def toRat (d : BigDecimal) : ℚ :=
  d.unscaledValue * 10 ^ (-d.scale)

variable {a b d : BigDecimal}

/-- Changing to a larger scale keeps the number. -/
theorem unscaledAt_toRat {scale : ℤ} (h : d.scale ≤ scale) :
    (d.unscaledAt scale : ℚ) * 10 ^ (-scale) = d.toRat := by
  have hten : (10 : ℚ) ≠ 0 := by norm_num
  have hshift : (((scale - d.scale).toNat : ℕ) : ℤ) = scale - d.scale :=
    Int.toNat_of_nonneg (sub_nonneg.mpr h)
  calc (d.unscaledAt scale : ℚ) * 10 ^ (-scale)
      = d.unscaledValue * (10 ^ (((scale - d.scale).toNat : ℕ) : ℤ) * 10 ^ (-scale)) := by
        rw [unscaledAt, zpow_natCast]
        push_cast
        ring
    _ = d.unscaledValue * 10 ^ (-d.scale) := by
        rw [hshift, ← zpow_add₀ hten]
        congr 2
        ring

theorem toRat_add : (a.add b).toRat = a.toRat + b.toRat := by
  rw [← unscaledAt_toRat (le_max_left a.scale b.scale),
    ← unscaledAt_toRat (le_max_right a.scale b.scale), toRat, add]
  push_cast
  ring

/-- `compareTo` finds two decimals equal when they denote the same number. -/
theorem compareTo_eq_iff : a.compareTo b = .eq ↔ a.toRat = b.toRat := by
  have hpower : (10 : ℚ) ^ (-max a.scale b.scale) ≠ 0 := zpow_ne_zero _ (by norm_num)
  rw [compareTo, compare_eq_iff_eq, ← unscaledAt_toRat (le_max_left a.scale b.scale),
    ← unscaledAt_toRat (le_max_right a.scale b.scale), mul_left_inj' hpower, Int.cast_inj]

theorem signum_pos_iff : 0 < d.signum ↔ 0 < d.toRat := by
  have hpower : (0 : ℚ) < 10 ^ (-d.scale) := zpow_pos (by norm_num) _
  rw [signum, toRat, Int.sign_pos_iff, mul_pos_iff_of_pos_right hpower, Int.cast_pos]

theorem toRat_zero : zero.toRat = 0 := by
  simp [toRat, zero]

theorem toRat_foldl_add {ds : List BigDecimal} :
    (ds.foldl add a).toRat = a.toRat + (ds.map toRat).sum := by
  induction ds generalizing a with
  | nil => simp
  | cons d ds ih =>
      rw [List.foldl_cons, ih, toRat_add, List.map_cons, List.sum_cons, add_assoc]

end BigDecimal

end Java
