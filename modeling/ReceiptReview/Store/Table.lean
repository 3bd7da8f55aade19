import Mathlib.Data.Int.Notation
import Mathlib.Data.Nat.Notation
import Mathlib.Data.List.Nodup
import Mathlib.Data.List.Basic

/-!
# Tables with a version column

A table holds rows with a primary key and a version.  A transaction reads rows
from an earlier snapshot of the table, changes them, and writes them back with
`flush`: each changed row must still be stored with the version that was read,
and is stored with the next version.

The order `Precedes` relates an earlier snapshot to a later table: every row is
still there, and either unchanged or stored with a larger version.  It is a
preorder that every `flush` and `insert` extends, so it relates any two moments
of a run.  Its use is `Precedes.stored_of_flush`: a row that was read in a
snapshot and written back successfully was still the stored row when it was
written.
-/

namespace Store

/-- A row type with a primary key and a version column. -/
class Entity (ρ : Type) where
  key : ρ → ℤ
  version : ρ → ℕ
  withVersion : ρ → ℕ → ρ
  key_withVersion : ∀ row v, key (withVersion row v) = key row
  version_withVersion : ∀ row v, version (withVersion row v) = v

attribute [simp] Entity.key_withVersion Entity.version_withVersion

/-- A table: no two rows share their primary key. -/
structure Table (ρ : Type) [Entity ρ] where
  rows : List ρ
  keys_nodup : (rows.map Entity.key).Nodup

namespace Table

variable {ρ : Type} [Entity ρ]

/-- The table without rows. -/
def empty : Table ρ :=
  ⟨[], by simp⟩

/-- The row with a given primary key. -/
def find? (t : Table ρ) (key : ℤ) : Option ρ :=
  t.rows.find? fun row => Entity.key row == key

@[simp] theorem find?_empty (key : ℤ) : (empty : Table ρ).find? key = none := rfl

theorem find?_eq_some_iff {t : Table ρ} {key : ℤ} {row : ρ} :
    t.find? key = some row ↔ row ∈ t.rows ∧ Entity.key row = key := by
  constructor
  · intro h
    exact ⟨List.mem_of_find?_eq_some h, by simpa using List.find?_some h⟩
  · intro hboth
    obtain ⟨hmem, rfl⟩ := hboth
    cases hfound : t.find? (Entity.key row) with
    | none => simpa using List.find?_eq_none.mp hfound row hmem
    | some other =>
        have hother : other ∈ t.rows := List.mem_of_find?_eq_some hfound
        have hkey : Entity.key other = Entity.key row := by simpa using List.find?_some hfound
        rw [List.inj_on_of_nodup_map t.keys_nodup hother hmem hkey]

theorem key_of_find? {t : Table ρ} {key : ℤ} {row : ρ} (h : t.find? key = some row) :
    Entity.key row = key :=
  (find?_eq_some_iff.mp h).2

theorem mem_of_find? {t : Table ρ} {key : ℤ} {row : ρ} (h : t.find? key = some row) :
    row ∈ t.rows :=
  (find?_eq_some_iff.mp h).1

theorem find?_of_mem {t : Table ρ} {row : ρ} (h : row ∈ t.rows) :
    t.find? (Entity.key row) = some row :=
  find?_eq_some_iff.mpr ⟨h, rfl⟩

theorem find?_eq_none_iff {t : Table ρ} {key : ℤ} :
    t.find? key = none ↔ ∀ row ∈ t.rows, Entity.key row ≠ key := by
  simp [find?, List.find?_eq_none]

/-! ## Writing rows back -/

/-- What `flush dirty` stores in place of `row`: the changed row under the next
version, or `row` itself when it was not changed. -/
def updated (dirty : List ρ) (row : ρ) : ρ :=
  match dirty.find? fun changed => Entity.key changed == Entity.key row with
  | some changed => Entity.withVersion changed (Entity.version row + 1)
  | none => row

/-- The row that `changed` was read as is still stored with the version read. -/
def isCurrent (t : Table ρ) (changed : ρ) : Bool :=
  (t.find? (Entity.key changed)).any fun row => Entity.version row == Entity.version changed

@[simp] theorem key_updated (dirty : List ρ) (row : ρ) :
    Entity.key (updated dirty row) = Entity.key row := by
  unfold updated
  split
  · rename_i changed hfound
    simpa using List.find?_some hfound
  · rfl

@[simp] theorem updated_nil (row : ρ) : updated [] row = row := rfl

theorem updated_singleton_self {changed row : ρ} (h : Entity.key changed = Entity.key row) :
    updated [changed] row = Entity.withVersion changed (Entity.version row + 1) := by
  simp [updated, h]

/-- A row stays as it is, or is replaced by a changed row of the same key. -/
theorem updated_cases (dirty : List ρ) (row : ρ) :
    (updated dirty row = row ∧ ∀ changed ∈ dirty, Entity.key changed ≠ Entity.key row) ∨
      ∃ changed ∈ dirty, Entity.key changed = Entity.key row ∧
        updated dirty row = Entity.withVersion changed (Entity.version row + 1) := by
  unfold updated
  split
  · rename_i changed hfound
    exact .inr ⟨changed, List.mem_of_find?_eq_some hfound, by simpa using List.find?_some hfound,
      rfl⟩
  · rename_i hnone
    exact .inl ⟨rfl, by simpa using hnone⟩

/-- Write changed rows back: all of them, or none when the version of one of
them has moved on. -/
def flush (t : Table ρ) (dirty : List ρ) : Option (Table ρ) :=
  if dirty.all t.isCurrent then
    some ⟨t.rows.map (updated dirty), by
      have : Entity.key ∘ updated dirty = (Entity.key : ρ → ℤ) := by
        funext row; simp
      rw [List.map_map, this]
      exact t.keys_nodup⟩
  else none

/-- Add a row under a primary key that is not taken. -/
def insert (t : Table ρ) (row : ρ) : Option (Table ρ) :=
  if h : (t.find? (Entity.key row)).isNone then
    some ⟨t.rows ++ [row], by
      rw [Option.isNone_iff_eq_none, find?_eq_none_iff] at h
      simp only [List.map_append, List.map_cons, List.map_nil, List.nodup_append]
      refine ⟨t.keys_nodup, by simp, ?_⟩
      intro key hkey other hother
      obtain ⟨stored, hstored, rfl⟩ := List.mem_map.mp hkey
      rw [List.mem_singleton.mp hother]
      exact h stored hstored⟩
  else none

theorem find?_map_updated (dirty rows : List ρ) (key : ℤ) :
    (rows.map (updated dirty)).find? (fun row => Entity.key row == key) =
      (rows.find? fun row => Entity.key row == key).map (updated dirty) := by
  rw [List.find?_map]
  congr 2
  funext row
  simp

theorem find?_flush {t t' : Table ρ} {dirty : List ρ} (h : t.flush dirty = some t') (key : ℤ) :
    t'.find? key = (t.find? key).map (updated dirty) := by
  unfold flush at h
  split at h
  · cases h
    exact find?_map_updated dirty t.rows key
  · exact absurd h (by simp)

/-- Each row that was written back was stored with the version that was read. -/
theorem version_of_flush {t t' : Table ρ} {dirty : List ρ} (h : t.flush dirty = some t')
    {changed : ρ} (hmem : changed ∈ dirty) :
    ∃ row, t.find? (Entity.key changed) = some row ∧
      Entity.version row = Entity.version changed := by
  unfold flush at h
  split at h
  · rename_i hall
    have hcurrent := List.all_eq_true.mp hall changed hmem
    obtain ⟨row, hrow, hversion⟩ := Option.any_eq_true _ _ |>.mp hcurrent
    exact ⟨row, hrow, by simpa using hversion⟩
  · exact absurd h (by simp)

/-- Changed rows are written back while all of their rows have the versions that were read. -/
theorem exists_flush {t : Table ρ} {dirty : List ρ}
    (h : ∀ changed ∈ dirty, ∃ row, t.find? (Entity.key changed) = some row ∧
      Entity.version row = Entity.version changed) : ∃ t', t.flush dirty = some t' := by
  have hcurrent : dirty.all t.isCurrent = true := by
    rw [List.all_eq_true]
    intro changed hmem
    obtain ⟨row, hrow, hversion⟩ := h changed hmem
    simp [isCurrent, hrow, hversion]
  exact ⟨_, if_pos hcurrent⟩

/-- A changed row is written back while its row has the version that was read. -/
theorem exists_flush_singleton {t : Table ρ} {changed row : ρ}
    (hrow : t.find? (Entity.key changed) = some row)
    (hversion : Entity.version row = Entity.version changed) :
    ∃ t', t.flush [changed] = some t' := by
  have hcurrent : [changed].all t.isCurrent = true := by
    simp [isCurrent, hrow, hversion]
  exact ⟨_, if_pos hcurrent⟩

@[simp] theorem flush_nil (t : Table ρ) : t.flush [] = some t := by
  have : t.rows.map (updated []) = t.rows := by
    rw [show (updated [] : ρ → ρ) = id from funext updated_nil]
    simp
  simp only [flush, List.all_nil, if_true, this]

theorem find?_insert_self {t t' : Table ρ} {row : ρ} (h : t.insert row = some t') :
    t.find? (Entity.key row) = none ∧ t'.find? (Entity.key row) = some row := by
  unfold insert at h
  split at h
  · rename_i hnone
    cases h
    exact ⟨Option.isNone_iff_eq_none.mp hnone, find?_of_mem (by simp)⟩
  · exact absurd h (by simp)

theorem rows_insert {t t' : Table ρ} {row : ρ} (h : t.insert row = some t') :
    t'.rows = t.rows ++ [row] := by
  unfold insert at h
  split at h
  · cases h
    rfl
  · exact absurd h (by simp)

theorem find?_insert_other {t t' : Table ρ} {row : ρ} (h : t.insert row = some t') {key : ℤ}
    (hkey : key ≠ Entity.key row) : t'.find? key = t.find? key := by
  unfold find?
  rw [rows_insert h, List.find?_append]
  have : ([row].find? fun r => Entity.key r == key) = none := by simp [Ne.symm hkey]
  rw [this]
  simp

/-- The row stored under a key after an insertion. -/
theorem find?_insert {t t' : Table ρ} {row : ρ} (h : t.insert row = some t') (key : ℤ) :
    t'.find? key = if key = Entity.key row then some row else t.find? key := by
  split
  · rename_i hkey
    rw [hkey]
    exact (find?_insert_self h).2
  · rename_i hkey
    exact find?_insert_other h hkey

/-! ## The order of snapshots -/

/-- `t` is an earlier state of the table `t'`: its rows are still there,
unchanged or under a larger version. -/
def Precedes (t t' : Table ρ) : Prop :=
  ∀ key row, t.find? key = some row → ∃ row', t'.find? key = some row' ∧
    (row' = row ∨ Entity.version row < Entity.version row')

theorem Precedes.refl (t : Table ρ) : t.Precedes t :=
  fun _ row h => ⟨row, h, .inl rfl⟩

theorem Precedes.trans {t₁ t₂ t₃ : Table ρ} (h₁ : t₁.Precedes t₂) (h₂ : t₂.Precedes t₃) :
    t₁.Precedes t₃ := by
  intro key row hrow
  obtain ⟨row₂, hrow₂, hcase₂⟩ := h₁ key row hrow
  obtain ⟨row₃, hrow₃, hcase₃⟩ := h₂ key row₂ hrow₂
  refine ⟨row₃, hrow₃, ?_⟩
  rcases hcase₂ with rfl | hlt₂
  · exact hcase₃
  · rcases hcase₃ with rfl | hlt₃
    · exact .inr hlt₂
    · exact .inr (Nat.lt_trans hlt₂ hlt₃)

theorem Precedes.of_flush {t t' : Table ρ} {dirty : List ρ} (h : t.flush dirty = some t') :
    t.Precedes t' := by
  intro key row hrow
  refine ⟨updated dirty row, by rw [find?_flush h, hrow]; rfl, ?_⟩
  unfold updated
  split
  · exact .inr (by simp)
  · exact .inl rfl

theorem Precedes.of_insert {t t' : Table ρ} {row : ρ} (h : t.insert row = some t') :
    t.Precedes t' := by
  intro key stored hstored
  have hne : key ≠ Entity.key row := by
    rintro rfl
    rw [(find?_insert_self h).1] at hstored
    exact absurd hstored (by simp)
  exact ⟨stored, by rw [find?_insert_other h hne, hstored], .inl rfl⟩

/-- Between two moments of a run, the version of a row determines the row. -/
theorem Precedes.eq_of_version {t t' : Table ρ} (h : t.Precedes t') {key : ℤ} {row row' : ρ}
    (hrow : t.find? key = some row) (hrow' : t'.find? key = some row')
    (hversion : Entity.version row = Entity.version row') : row' = row := by
  obtain ⟨later, hlater, hcase⟩ := h key row hrow
  rw [hrow'] at hlater
  cases hlater
  rcases hcase with heq | hlt
  · exact heq
  · omega

/-- **Optimistic locking.**  A row that was read in an earlier snapshot and
written back successfully was still the stored row. -/
theorem Precedes.stored_of_flush {s t t' : Table ρ} (h : s.Precedes t) {dirty : List ρ}
    (hflush : t.flush dirty = some t') {changed row : ρ} (hmem : changed ∈ dirty)
    (hread : s.find? (Entity.key changed) = some row)
    (hversion : Entity.version changed = Entity.version row) :
    t.find? (Entity.key changed) = some row := by
  obtain ⟨stored, hstored, hcurrent⟩ := version_of_flush hflush hmem
  rw [hstored, h.eq_of_version hread hstored (by omega)]

end Table

end Store
