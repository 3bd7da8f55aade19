import Mathlib.Data.Finset.Card
import Mathlib.Data.List.Sort
import Mathlib.Order.Lattice

/-!
# Waiting lines

A line is a set of places in a linear order.  For somebody who waits at a place, the rank is
the number of places before it.  A step of the line may serve some of them and may let others
leave; as long as nobody comes before the place, the rank goes down by as many as are served,
so no more are served before it than its rank (`Passing.rank_le`).

A query that sorts its rows and takes the first of them serves a line in its order: whoever is
left out has a full batch before him (`take_insertionSort_of_not_mem`).
-/

namespace Store.Line

/-! ## Sorted batches -/

section Batch

variable {α : Type*} {r : α → α → Prop} [DecidableRel r] {rows : List α} {a : α} {n : ℕ}

/-- What does not get into a batch comes after all of it, and the batch is full. -/
theorem take_insertionSort_of_not_mem [Std.Total r] [IsTrans α r] (hmem : a ∈ rows)
    (hout : a ∉ (rows.insertionSort r).take n) :
    ((rows.insertionSort r).take n).length = n ∧ ∀ b ∈ (rows.insertionSort r).take n, r b a := by
  set sorted := rows.insertionSort r with hsorted
  have hrest : a ∈ sorted.drop n := by
    have hall : a ∈ sorted.take n ++ sorted.drop n := by
      rw [List.take_append_drop, hsorted, List.mem_insertionSort]
      exact hmem
    exact (List.mem_append.mp hall).resolve_left hout
  constructor
  · have hlong : 0 < (sorted.drop n).length := List.length_pos_of_mem hrest
    rw [List.length_drop] at hlong
    rw [List.length_take]
    omega
  · intro b hb
    have hordered : (sorted.take n ++ sorted.drop n).Pairwise r := by
      rw [List.take_append_drop]
      exact List.pairwise_insertionSort r rows
    exact (List.pairwise_append.mp hordered).2.2 b hb a hrest

end Batch

/-! ## Lines -/

variable {α : Type*} [LinearOrder α] {line line' line'' : Finset α} {a : α} {n m : ℕ}

/-- How many are before the place. -/
def rank (line : Finset α) (a : α) : ℕ := (line.filter (· < a)).card

/-- A step of the line that serves `n` places before `a`, and lets nobody come before it. -/
def Serves (a : α) (n : ℕ) (line line' : Finset α) : Prop :=
  ∃ taken ⊆ line, taken.card = n ∧ (∀ b ∈ taken, b < a) ∧ ∀ b ∈ line', b < a → b ∈ line \ taken

theorem Serves.rank_le (h : Serves a n line line') : n + rank line' a ≤ rank line a := by
  obtain ⟨taken, hsubset, rfl, hbefore, hstays⟩ := h
  have hdisjoint : Disjoint taken (line'.filter (· < a)) := by
    rw [Finset.disjoint_left]
    intro b htaken hb
    obtain ⟨hmem, hlt⟩ := Finset.mem_filter.mp hb
    exact (Finset.mem_sdiff.mp (hstays b hmem hlt)).2 htaken
  unfold rank
  rw [← Finset.card_union_of_disjoint hdisjoint]
  apply Finset.card_le_card
  intro b hb
  rcases Finset.mem_union.mp hb with htaken | hb
  · exact Finset.mem_filter.mpr ⟨hsubset htaken, hbefore b htaken⟩
  · obtain ⟨hmem, hlt⟩ := Finset.mem_filter.mp hb
    exact Finset.mem_filter.mpr ⟨(Finset.mem_sdiff.mp (hstays b hmem hlt)).1, hlt⟩

/-- Steps of a line, with the number that they serve before `a` altogether. -/
inductive Passing (a : α) : ℕ → Finset α → Finset α → Prop
  | refl {line : Finset α} : Passing a 0 line line
  | step {n m : ℕ} {line line' line'' : Finset α} :
      Passing a n line line' → Serves a m line' line'' → Passing a (m + n) line line''

/-- **Bounded overtaking.**  No more are served before a place than are before it. -/
theorem Passing.rank_le (h : Passing a n line line') : n + rank line' a ≤ rank line a := by
  induction h with
  | refl => omega
  | step _ hserves ih =>
      have hstep := hserves.rank_le
      omega

end Store.Line
