import ReceiptReview.Concurrent.AccountScript

/-!
# The last administrator

Nobody deactivates himself, and the filter lets only administrators act.  But the
filter decides before the transaction starts, and two administrators who deactivate
each other write different rows, so neither commit fails.

An administrator remains if whoever deactivates an account still is an
administrator when this commits: then the actor itself remains.
-/

namespace ReceiptReview

open Java Store

variable {P : Platform} {ι : Type} {history moment : List (AccountCommit ι)}
variable {commit : AccountCommit ι}

/-- Somebody can administer the system. -/
def HasAdministrator (accounts : Table Account) : Prop :=
  ∃ account ∈ accounts.rows, account.Administers

instance (accounts : Table Account) : Decidable (HasAdministrator accounts) := by
  unfold HasAdministrator
  infer_instance

/-- The first administrator has been prepared. -/
def Bootstrapped (history : List (AccountCommit ι)) : Prop :=
  ∃ commit ∈ history, commit.operation = .bootstrap

instance (history : List (AccountCommit ι)) : Decidable (Bootstrapped history) := by
  unfold Bootstrapped
  infer_instance

/-- Who deactivates an account with this commit administers the system when it
commits. -/
def AccountCommit.ActorAdministers (commit : AccountCommit ι)
    (history : List (AccountCommit ι)) : Prop :=
  match commit.operation with
  | .active false actorId => ∃ actor ∈ (accountsAt history).find? actorId, actor.Administers
  | _ => True

instance (commit : AccountCommit ι) (history : List (AccountCommit ι)) :
    Decidable (commit.ActorAdministers history) := by
  unfold AccountCommit.ActorAdministers
  split
  · rename_i actorId _
    exact decidable_of_iff
      (((accountsAt history).find? actorId).any (fun actor => decide actor.Administers) = true)
      (by simp [Option.any_eq_true])
  · infer_instance

/-- Every deactivation is made by somebody who still administers the system. -/
def ActorsAdminister : List (AccountCommit ι) → Prop
  | [] => True
  | commit :: history => commit.ActorAdministers history ∧ ActorsAdminister history

instance : (history : List (AccountCommit ι)) → Decidable (ActorsAdminister history)
  | [] => .isTrue trivial
  | commit :: history =>
      have := instDecidableActorsAdminister history
      inferInstanceAs (Decidable (commit.ActorAdministers history ∧ ActorsAdminister history))

theorem ActorsAdminister.suffix (h : ActorsAdminister history) (hmoment : moment <:+ history) :
    ActorsAdminister moment := by
  induction history with
  | nil => rwa [List.suffix_nil.mp hmoment]
  | cons commit history ih =>
      rcases List.suffix_cons_iff.mp hmoment with rfl | hmoment
      · exact h
      · exact ih h.2 hmoment

/-- An administrator stays one, unless it is deactivated by somebody else. -/
theorem Account.Step.administers {operation : AccountOperation} {a b : Account}
    (h : Account.Step P operation a b) (ha : a.Administers) :
    b.Administers ∨ ∃ actorId, operation = .active false actorId ∧ a.id ≠ actorId := by
  obtain ⟨hrole, hactive, hpassword⟩ := ha
  cases h with
  | reissued hnone => exact absurd hnone hpassword
  | passwordSet haccepts => exact absurd (Account.acceptsToken_iff.mp haccepts).2.2 hpassword
  | @activated _ active actorId hother =>
      cases active with
      | true => exact .inl ⟨hrole, rfl, hpassword⟩
      | false => exact .inr ⟨actorId, rfl, hother rfl⟩

/-- One commit leaves an administrator. -/
theorem AccountHistory.administered_cons (h : AccountHistory P (commit :: history))
    (hactor : commit.ActorAdministers history)
    (hbefore : HasAdministrator (accountsAt history)) : HasAdministrator commit.accounts := by
  obtain ⟨account, hmem, hadministers⟩ := hbefore
  have hstored : (accountsAt history).find? account.id = some account := Table.find?_of_mem hmem
  rcases h.kept_or_stepped hstored with hkept | ⟨changed, hstep, hrow, hfound⟩
  · exact ⟨account, Table.mem_of_find? hkept, hadministers⟩
  · rcases hstep.administers hadministers with hstill | ⟨actorId, hoperation, hother⟩
    · refine ⟨commit.row, Table.mem_of_find? hfound, ?_⟩
      rw [hrow]
      exact hstill
    · -- the actor is not the account that is written
      simp only [AccountCommit.ActorAdministers, hoperation] at hactor
      obtain ⟨actor, hactorStored, hactorAdministers⟩ := hactor
      have hid : actor.id = actorId := Table.key_of_find? hactorStored
      rcases h.kept_or_stepped hactorStored with hkept | ⟨changed', hstep', hrow', -⟩
      · exact ⟨actor, Table.mem_of_find? hkept, hactorAdministers⟩
      · refine absurd ?_ hother
        calc account.id
            = changed.id := hstep.continues.id.symm
          _ = commit.row.id := by rw [hrow]
          _ = changed'.id := by rw [hrow']
          _ = actor.id := hstep'.continues.id
          _ = actorId := hid

theorem Account.Created.administers {row : Account} (h : Account.Created P .bootstrap row) :
    row.Administers := by
  cases h
  exact ⟨rfl, rfl, by simp [Account.setPassword]⟩

/-- The prepared administrator administers the system. -/
theorem AccountHistory.administers_bootstrap (h : AccountHistory P (commit :: history))
    (hoperation : commit.operation = .bootstrap) : HasAdministrator commit.accounts := by
  obtain ⟨-, ⟨hcreated, -, -, hfound⟩ | ⟨before, changed, -, hstep, -, -⟩⟩ := h.cases_cons
  · have hstored : commit.accounts.find? commit.row.id = some commit.row := by
      rw [hfound, if_pos rfl]
    refine ⟨commit.row, Table.mem_of_find? hstored, ?_⟩
    rw [hoperation] at hcreated
    exact hcreated.administers
  · rw [hoperation] at hstep
    cases hstep

theorem AccountHistory.administered (h : AccountHistory P history)
    (hactors : ActorsAdminister history) (hbootstrapped : Bootstrapped history) :
    HasAdministrator (accountsAt history) := by
  induction history with
  | nil =>
      obtain ⟨commit, hmem, -⟩ := hbootstrapped
      exact absurd hmem List.not_mem_nil
  | cons commit history ih =>
      obtain ⟨bootstrap, hmem, hoperation⟩ := hbootstrapped
      rcases List.mem_cons.mp hmem with rfl | hmem
      · exact h.administers_bootstrap hoperation
      · exact h.administered_cons hactors.1
          (ih h.cases_cons.1 hactors.2 ⟨bootstrap, hmem, hoperation⟩)

variable [DecidableEq ι] {calls : ι → AccountCall ι} {pool : AccountsPool ι}

/-- If whoever deactivates an account still administers the system when this
commits, then at every moment after the first administrator was prepared somebody
administers the system. -/
theorem administrator_remains (h : AccountsRun P calls pool)
    (hactors : ActorsAdminister pool.shared.history) {moment : List (AccountCommit ι)}
    (hmoment : moment <:+ pool.shared.history) (hbootstrapped : Bootstrapped moment) :
    HasAdministrator (accountsAt moment) :=
  (h.history.suffix hmoment).administered (hactors.suffix hmoment) hbootstrapped

open Sample in
/-- The first administrator deactivates the second one, and remains. -/
theorem deactivation_administered :
    ∃ pool : AccountsPool ℕ, AccountsRun platform accountCalls pool ∧
      ((accountsAt pool.shared.history).find? 2).any (·.active) = false ∧
      HasAdministrator (accountsAt pool.shared.history) :=
  ⟨_, accountsRun_accountsAfter (administratorsLogIn ++ begins 5 4 2), by decide +kernel,
    administrator_remains (accountsRun_accountsAfter _) (by decide +kernel) List.suffix_rfl
      (by decide +kernel)⟩

open Sample in
/-- Two administrators pass the filter, and then deactivate each other. -/
theorem administrators_locked_out :
    ¬ ∀ (P : Platform) (calls : ℕ → AccountCall ℕ) (pool : AccountsPool ℕ),
      AccountsRun P calls pool → Bootstrapped pool.shared.history →
      HasAdministrator (accountsAt pool.shared.history) := by
  intro hremains
  have hlocked := hremains platform accountCalls _
    (accountsRun_accountsAfter (administratorsLogIn ++ begins 5 2 2 ++ begins 6 2 1 ++
      continues 5 2 2 ++ continues 6 2 1)) (by decide +kernel)
  exact absurd hlocked (by decide +kernel)

end ReceiptReview
