import Mathlib.Data.List.Basic
import Mathlib.Logic.Basic

/-!
# Replays in another order

A log is replayed entry by entry, in the order in which it was written.  Whoever reads it
sorted by a time that the entries carry may find it in another order: an entry may carry an
earlier time than the one before it, and entries of one time come in any order.  The replay
ends in the same state, if those entries commute that may have changed places
(`foldlM_eq_of_perm`).
-/

namespace Store

universe u v w

variable {σ : Type u} {α : Type v} {m : Type u → Type w} [Monad m] [LawfulMonad m]
variable {next : σ → α → m σ} {a b : α} {log shown before after : List α}

/-- Two entries are replayed in either order. -/
def Commutes (next : σ → α → m σ) (a b : α) : Prop :=
  ∀ state, (next state a >>= fun state' => next state' b) =
    next state b >>= fun state' => next state' a

omit [LawfulMonad m] in
theorem Commutes.symm (h : Commutes next a b) : Commutes next b a := fun state => (h state).symm

/-- An entry that leaves every state as it is commutes with every other. -/
theorem Commutes.of_pure (h : ∀ state, next state a = pure state) (b : α) : Commutes next a b := by
  intro state
  simp [h]

/-- An entry is replayed before others that commute with it. -/
theorem foldlM_middle (h : ∀ b ∈ before, Commutes next a b) (state : σ) :
    (before ++ a :: after).foldlM next state = (a :: (before ++ after)).foldlM next state := by
  induction before generalizing state with
  | nil => rfl
  | cons b before ih =>
      have hrest : ∀ b ∈ before, Commutes next a b := fun b hb => h b (List.mem_cons_of_mem _ hb)
      calc ((b :: before) ++ a :: after).foldlM next state
          = next state b >>= fun state' => (before ++ a :: after).foldlM next state' := by
            rw [List.cons_append, List.foldlM_cons]
        _ = next state b >>= fun state' => (a :: (before ++ after)).foldlM next state' := by
            simp only [ih hrest]
        _ = (next state b >>= fun state' => next state' a) >>=
              fun state' => (before ++ after).foldlM next state' := by
            simp only [List.foldlM_cons, bind_assoc]
        _ = (next state a >>= fun state' => next state' b) >>=
              fun state' => (before ++ after).foldlM next state' := by
            rw [h b List.mem_cons_self state]
        _ = (a :: ((b :: before) ++ after)).foldlM next state := by
            simp only [List.cons_append, List.foldlM_cons, bind_assoc]

/-- A log is replayed in an order in which it is shown, if every entry of it commutes with
those of the later ones that may be shown before it. -/
theorem foldlM_eq_of_perm {le : α → α → Prop} (hperm : shown.Perm log)
    (hsorted : shown.Pairwise le)
    (hlog : log.Pairwise fun a b => ¬ le b a ∨ Commutes next a b) (state : σ) :
    shown.foldlM next state = log.foldlM next state := by
  induction log generalizing shown state with
  | nil => rw [hperm.eq_nil]
  | cons a log ih =>
      obtain ⟨hfirst, hrest⟩ := List.pairwise_cons.mp hlog
      obtain ⟨before, after, rfl⟩ := List.append_of_mem (hperm.mem_iff.mpr List.mem_cons_self)
      have hperm' : (before ++ after).Perm log := (List.perm_middle.symm.trans hperm).cons_inv
      have hbefore : ∀ b ∈ before, Commutes next a b := by
        intro b hb
        have hle : le b a := (List.pairwise_append.mp hsorted).2.2 b hb a List.mem_cons_self
        exact (hfirst b (hperm'.mem_iff.mp (List.mem_append_left _ hb))).resolve_left
          (not_not_intro hle)
      have hsorted' : (before ++ after).Pairwise le :=
        hsorted.sublist (List.Sublist.append_left (List.sublist_cons_self a after) before)
      rw [foldlM_middle hbefore, List.foldlM_cons, List.foldlM_cons]
      simp only [ih hperm' hsorted' hrest]

end Store
