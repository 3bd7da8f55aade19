import Mathlib.Data.List.Basic

/-!
# Append-only logs

Some entries of a log ask for another entry after them.  An entry is unanswered
as long as no entry after it is an answer; what an append does to this depends
on the appended entries alone.
-/

namespace Store

variable {α : Type} {asks answers : α → Prop} {log entries : List α} {entry : α}

/-- Some entry that asks for an answer has none after it. -/
def Unanswered (asks answers : α → Prop) (log : List α) : Prop :=
  ∃ before entry after, log = before ++ entry :: after ∧ asks entry ∧
    ∀ later ∈ after, ¬ answers later

theorem unanswered_append :
    Unanswered asks answers (log ++ entries) ↔
      Unanswered asks answers entries ∨
        Unanswered asks answers log ∧ ∀ later ∈ entries, ¬ answers later := by
  constructor
  · intro hpending
    obtain ⟨before, entry, after, hsplit, hasks, hnone⟩ := hpending
    rcases List.append_eq_append_iff.mp hsplit with ⟨middle, rfl, hentries⟩ | ⟨middle, hlog, hrest⟩
    · exact .inl ⟨middle, entry, after, hentries, hasks, hnone⟩
    · cases middle with
      | nil => exact .inl ⟨[], entry, after, by simpa using hrest.symm, hasks, hnone⟩
      | cons first middle =>
          obtain ⟨rfl, rfl⟩ := List.cons.inj hrest
          refine .inr ⟨⟨before, entry, middle, hlog, hasks, ?_⟩, ?_⟩
          · exact fun later hlater => hnone later (by simp [hlater])
          · exact fun later hlater => hnone later (by simp [hlater])
  · rintro (⟨before, entry, after, rfl, hasks, hnone⟩ |
      ⟨⟨before, entry, after, rfl, hasks, hnone⟩, hquiet⟩)
    · exact ⟨log ++ before, entry, after, by simp, hasks, hnone⟩
    · refine ⟨before, entry, after ++ entries, by simp, hasks, fun later hlater => ?_⟩
      rcases List.mem_append.mp hlater with hlater | hlater
      · exact hnone later hlater
      · exact hquiet later hlater

/-- Entries that ask for nothing leave nothing unanswered. -/
theorem not_unanswered_of_forall (h : ∀ entry ∈ entries, ¬ asks entry) :
    ¬ Unanswered asks answers entries := by
  intro hpending
  obtain ⟨before, entry, after, rfl, hasks, -⟩ := hpending
  exact h entry (by simp) hasks

/-- An answer that asks for nothing itself answers everything before it. -/
theorem not_unanswered_concat (hanswers : answers entry) (hasks : ¬ asks entry) :
    ¬ Unanswered asks answers (log ++ [entry]) := by
  rw [unanswered_append]
  intro hpending
  rcases hpending with hnew | ⟨-, hquiet⟩
  · exact not_unanswered_of_forall (by simpa using hasks) hnew
  · exact hquiet entry (by simp) hanswers

/-- Where nothing is unanswered, every entry that asks has an answer after it. -/
theorem exists_answer (h : ¬ Unanswered asks answers log) {before after : List α}
    (hlog : log = before ++ entry :: after) (hasks : asks entry) :
    ∃ later ∈ after, answers later := by
  by_contra hnone
  refine h ⟨before, entry, after, hlog, hasks, fun later hlater hanswers => ?_⟩
  exact hnone ⟨later, hlater, hanswers⟩

end Store
