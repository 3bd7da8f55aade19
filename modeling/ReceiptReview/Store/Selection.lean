import Mathlib.Data.List.Basic
import Mathlib.Data.List.Induction

/-!
# Selecting rows

Conditions of a query are truth values of a three-valued logic, in which a
comparison with null is unknown; a query selects the rows whose condition is
true.  A page of a query is a window of the selected rows with the number of all
of them, as Spring Data computes it: without a second query where the window shows
the end of the rows.

The windows of consecutive pages are a partition (`flatMap_window`), and each of
them tells the same total (`query_eq_slice`).  Rows fetched by their keys come
in any order; `indexBy` puts them into a map, which `indexBy_of_mem` reads.
-/

namespace Store

/-! ## Conditions -/

/-- True, false, or unknown. -/
abbrev Truth := Option Bool

namespace Truth

variable {α : Type}

/-- A comparison of two columns or parameters. -/
def compare (r : α → α → Prop) [DecidableRel r] (a b : Option α) : Truth :=
  match a, b with
  | some a, some b => some (decide (r a b))
  | _, _ => none

def isNull (a : Option α) : Truth := some a.isNone

def isNotNull (a : Option α) : Truth := some a.isSome

/-- `a in values`, for values that are not null. -/
def isIn [DecidableEq α] (a : Option α) (values : List α) : Truth :=
  a.map fun a => decide (a ∈ values)

def and : Truth → Truth → Truth
  | some false, _ | _, some false => some false
  | some true, some true => some true
  | _, _ => none

def or : Truth → Truth → Truth
  | some true, _ | _, some true => some true
  | some false, some false => some false
  | _, _ => none

@[simp] theorem compare_eq_true {r : α → α → Prop} [DecidableRel r] {a b : Option α} :
    compare r a b = some true ↔ ∃ x y, a = some x ∧ b = some y ∧ r x y := by
  cases a with
  | none => simp [compare]
  | some x =>
      cases b with
      | none => simp [compare]
      | some y => simp [compare]

@[simp] theorem isNull_eq_true {a : Option α} : isNull a = some true ↔ a = none := by
  cases a <;> simp [isNull]

@[simp] theorem isNotNull_eq_true {a : Option α} :
    isNotNull a = some true ↔ ∃ x, a = some x := by
  cases a <;> simp [isNotNull]

@[simp] theorem isIn_eq_true [DecidableEq α] {a : Option α} {values : List α} :
    isIn a values = some true ↔ ∃ x ∈ values, a = some x := by
  cases a <;> simp [isIn]

@[simp] theorem and_eq_true {p q : Truth} :
    and p q = some true ↔ p = some true ∧ q = some true := by
  rcases p with _ | _ | _ <;> rcases q with _ | _ | _ <;> simp [and]

@[simp] theorem or_eq_true {p q : Truth} :
    or p q = some true ↔ p = some true ∨ q = some true := by
  rcases p with _ | _ | _ <;> rcases q with _ | _ | _ <;> simp [or]

/-- The rows whose condition is true. -/
def select (condition : α → Truth) (rows : List α) : List α :=
  rows.filter fun row => condition row == some true

theorem mem_select {condition : α → Truth} {rows : List α} {row : α} :
    row ∈ select condition rows ↔ row ∈ rows ∧ condition row = some true := by
  simp [select]

end Truth

/-! ## Windows -/

section Windows

variable {α : Type}

/-- `limit size offset (number * size)`. -/
def window (rows : List α) (size number : ℕ) : List α :=
  (rows.drop (number * size)).take size

theorem length_window (rows : List α) (size number : ℕ) :
    (window rows size number).length = min size (rows.length - number * size) := by
  simp [window]

theorem mem_of_mem_window {rows : List α} {size number : ℕ} {row : α}
    (h : row ∈ window rows size number) : row ∈ rows :=
  List.mem_of_mem_drop (List.mem_of_mem_take h)

theorem window_ne_nil_iff {rows : List α} {size number : ℕ} (hsize : 0 < size) :
    window rows size number ≠ [] ↔ number * size < rows.length := by
  rw [← List.length_pos_iff_ne_nil, length_window]
  omega

theorem map_window {β : Type} (f : α → β) (rows : List α) (size number : ℕ) :
    window (rows.map f) size number = (window rows size number).map f := by
  simp [window, List.map_drop, List.map_take]

theorem flatMap_window_range (rows : List α) (size count : ℕ) :
    ((List.range count).flatMap fun number => window rows size number) =
      rows.take (count * size) := by
  induction count with
  | zero => simp
  | succ count ih =>
      rw [List.range_succ, List.flatMap_append, ih, Nat.succ_mul, List.take_add]
      simp [window]

/-- The number of windows that are not empty. -/
def windowCount (total size : ℕ) : ℕ := (total + size - 1) / size

theorem lt_windowCount_iff {total size number : ℕ} (hsize : 0 < size) :
    number < windowCount total size ↔ number * size < total := by
  unfold windowCount
  rw [← Nat.succ_le_iff, Nat.le_div_iff_mul_le hsize, Nat.succ_mul]
  omega

/-- The windows of consecutive numbers are a partition of the rows. -/
theorem flatMap_window (rows : List α) {size : ℕ} (hsize : 0 < size) :
    ((List.range (windowCount rows.length size)).flatMap fun number => window rows size number) =
      rows := by
  rw [flatMap_window_range]
  apply List.take_of_length_le
  by_contra hshort
  have := (lt_windowCount_iff hsize).mpr (Nat.not_le.mp hshort)
  omega

end Windows

/-! ## Pages -/

/-- `PageRequest`, the order apart. -/
structure PageRequest where
  page : ℕ
  size : ℕ
  size_pos : 0 < size
  deriving DecidableEq, Repr

def PageRequest.offset (pageable : PageRequest) : ℕ := pageable.page * pageable.size

/-- A `PageImpl`. -/
structure Page (α : Type) where
  content : List α
  pageable : PageRequest
  totalElements : ℕ
  deriving DecidableEq, Repr

namespace Page

variable {α : Type}

/-- The constructor of `PageImpl`: a page that is not full shows where the rows end. -/
def of (content : List α) (pageable : PageRequest) (total : ℕ) : Page α where
  content := content
  pageable := pageable
  totalElements :=
    if content ≠ [] ∧ total < pageable.offset + pageable.size then
      pageable.offset + content.length
    else total

/-- The rounded quotient, which a `double` has exactly for totals of an `int`. -/
def totalPages (page : Page α) : ℕ :=
  windowCount page.totalElements page.pageable.size

def hasNext (page : Page α) : Bool :=
  page.pageable.page + 1 < page.totalPages

/-- `PageableExecutionUtils.getPage`: count only where the content does not tell. -/
def getPage (content : List α) (pageable : PageRequest) (count : ℕ) : Page α :=
  if pageable.offset = 0 then
    if content.length < pageable.size then of content pageable content.length
    else of content pageable count
  else if content ≠ [] ∧ content.length < pageable.size then
    of content pageable (pageable.offset + content.length)
  else of content pageable count

/-- The page of a query: its rows in their order, and the result of the count query. -/
def query (rows : List α) (count : ℕ) (pageable : PageRequest) : Page α :=
  getPage (window rows pageable.size pageable.page) pageable count

/-- The page that a request asks for: its window of the rows, and their number. -/
def slice (rows : List α) (pageable : PageRequest) : Page α where
  content := window rows pageable.size pageable.page
  pageable := pageable
  totalElements := rows.length

/-- A page made of a window and the right total keeps the total. -/
theorem of_window (rows : List α) (pageable : PageRequest) :
    of (window rows pageable.size pageable.page) pageable rows.length = slice rows pageable := by
  have hlength := length_window rows pageable.size pageable.page
  unfold of slice PageRequest.offset
  by_cases hshort : window rows pageable.size pageable.page ≠ [] ∧
      rows.length < pageable.page * pageable.size + pageable.size
  · have hpos := List.length_pos_iff_ne_nil.mpr hshort.1
    rw [if_pos hshort]
    congr 1
    omega
  · rw [if_neg hshort]

/-- Whether it is counted or read off the window, the total is the number of rows. -/
theorem query_eq_slice (rows : List α) (pageable : PageRequest) :
    query rows rows.length pageable = slice rows pageable := by
  have hlength := length_window rows pageable.size pageable.page
  rw [← of_window]
  unfold query getPage
  split
  · rename_i hfirst
    split
    · have : (window rows pageable.size pageable.page).length = rows.length := by
        simp only [PageRequest.offset] at hfirst
        omega
      rw [this]
    · rfl
  · split
    · rename_i hshort
      have hpos := List.length_pos_iff_ne_nil.mpr hshort.1
      have : pageable.offset + (window rows pageable.size pageable.page).length =
          rows.length := by
        simp only [PageRequest.offset]
        omega
      rw [this]
    · rfl

/-- A page is followed by another one as long as rows are left. -/
theorem hasNext_slice_iff {rows : List α} {pageable : PageRequest} :
    (slice rows pageable).hasNext = true ↔
      ∃ later, pageable.page < later ∧ window rows pageable.size later ≠ [] := by
  have hsize := pageable.size_pos
  simp only [hasNext, totalPages, slice, decide_eq_true_eq, lt_windowCount_iff hsize,
    window_ne_nil_iff hsize]
  constructor
  · intro hnext
    exact ⟨pageable.page + 1, Nat.lt_succ_self _, hnext⟩
  · rintro ⟨later, hlater, hrows⟩
    exact Nat.lt_of_le_of_lt (Nat.mul_le_mul_right _ hlater) hrows

end Page

/-! ## Rows by their keys -/

section Index

variable {κ ν ρ : Type} [DecidableEq κ]

/-- A `HashMap` into which the rows are put one after another. -/
def indexBy (key : ρ → κ) (value : ρ → ν) (rows : List ρ) : κ → Option ν :=
  rows.foldl (fun map row => Function.update map (key row) (some (value row))) fun _ => none

theorem indexBy_append_singleton (key : ρ → κ) (value : ρ → ν) (rows : List ρ) (row : ρ) :
    indexBy key value (rows ++ [row]) =
      Function.update (indexBy key value rows) (key row) (some (value row)) := by
  simp [indexBy]

/-- What a map holds was put there by a row with the key. -/
theorem indexBy_eq_some {key : ρ → κ} {value : ρ → ν} {rows : List ρ} {k : κ} {v : ν}
    (h : indexBy key value rows k = some v) : ∃ row ∈ rows, key row = k ∧ value row = v := by
  induction rows using List.reverseRecOn with
  | nil => simp [indexBy] at h
  | append_singleton rows row ih =>
      rw [indexBy_append_singleton] at h
      by_cases hkey : k = key row
      · rw [hkey, Function.update_self, Option.some.injEq] at h
        exact ⟨row, by simp, hkey.symm, h⟩
      · rw [Function.update_of_ne hkey] at h
        obtain ⟨earlier, hearlier, hfound⟩ := ih h
        exact ⟨earlier, by simp [hearlier], hfound⟩

theorem indexBy_eq_none_iff {key : ρ → κ} {value : ρ → ν} {rows : List ρ} {k : κ} :
    indexBy key value rows k = none ↔ ∀ row ∈ rows, key row ≠ k := by
  induction rows using List.reverseRecOn with
  | nil => simp [indexBy]
  | append_singleton rows row ih =>
      rw [indexBy_append_singleton]
      by_cases hkey : k = key row
      · rw [hkey, Function.update_self]
        simp only [reduceCtorEq, false_iff, not_forall, not_not]
        exact ⟨row, by simp, rfl⟩
      · rw [Function.update_of_ne hkey, ih]
        simp [or_imp, forall_and, Ne.symm hkey]

/-- Rows of distinct keys are found under their keys. -/
theorem indexBy_of_mem {key : ρ → κ} {value : ρ → ν} {rows : List ρ}
    (hinj : ∀ a ∈ rows, ∀ b ∈ rows, key a = key b → a = b) {row : ρ} (hrow : row ∈ rows) :
    indexBy key value rows (key row) = some (value row) := by
  cases hfound : indexBy key value rows (key row) with
  | none => exact absurd rfl (indexBy_eq_none_iff.mp hfound row hrow)
  | some v =>
      obtain ⟨other, hother, hkey, rfl⟩ := indexBy_eq_some hfound
      rw [hinj other hother row hrow hkey]

end Index

end Store
