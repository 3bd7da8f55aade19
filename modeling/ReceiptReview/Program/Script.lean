import ReceiptReview.Program.Pool

/-!
# Scripts

A script says which thread moves next, and gives the environment what it needs to
answer.  Where the answers are those of the rules, carrying out a script gives a run
(`steps_of_script`), so that runs can be computed.
-/

namespace Pool

variable {ι σ Req Env : Type} {Ans : Req → Type} {ε α : Type} [DecidableEq ι]

/-- The next move of a script. -/
inductive Move (ι Env : Type)
  | start (i : ι)
  | serve (i : ι) (environment : Env)

variable (program : ι → Program Req Ans ε α)
variable (answer : Env → ι → σ → (r : Req) → Option (Ans r × σ))

/-- Make one move, if it is possible. -/
def move? (pool : Pool ι σ Req Ans ε α) : Move ι Env → Option (Pool ι σ Req Ans ε α)
  | .start i =>
      match pool.threads i with
      | none => some (pool.update pool.shared i ⟨[], some (program i)⟩)
      | some _ => none
  | .serve i environment =>
      match pool.threads i with
      | some ⟨past, some (.call r next)⟩ =>
          match answer environment i pool.shared r with
          | some (result, s') => some (pool.update s' i ⟨⟨r, result⟩ :: past, some (next result)⟩)
          | none => none
      | _ => none

def script? : Pool ι σ Req Ans ε α → List (Move ι Env) → Option (Pool ι σ Req Ans ε α)
  | pool, [] => some pool
  | pool, move :: moves =>
      match move? program answer pool move with
      | some pool => script? pool moves
      | none => none

variable {program answer} {rules : PoolRules ι σ Req Ans ε α}
variable {pool pool' : Pool ι σ Req Ans ε α}

theorem Step.of_move (hprogram : rules.program = program) (hstarts : ∀ i s, rules.starts i s s)
    (hanswer : ∀ environment i s r result s', answer environment i s r = some (result, s') →
      rules.serves i s r result s') {move : Move ι Env}
    (h : move? program answer pool move = some pool') : Step rules pool pool' := by
  subst hprogram
  cases move with
  | start i =>
      simp only [move?] at h
      split at h
      · rename_i hnone
        cases h
        exact .start hnone (hstarts i _)
      · exact absurd h (by simp)
  | serve i environment =>
      simp only [move?] at h
      split at h
      · rename_i past r next hthread
        split at h
        · rename_i result s' hserved
          cases h
          exact .serve hthread (hanswer _ _ _ _ _ _ hserved)
        · exact absurd h (by simp)
      · exact absurd h (by simp)

/-- What follows from a script has been reached by steps. -/
theorem steps_of_script (hprogram : rules.program = program)
    (hstarts : ∀ i s, rules.starts i s s)
    (hanswer : ∀ environment i s r result s', answer environment i s r = some (result, s') →
      rules.serves i s r result s') {moves : List (Move ι Env)}
    (h : script? program answer pool moves = some pool') :
    Relation.ReflTransGen (Step rules) pool pool' := by
  induction moves generalizing pool with
  | nil =>
      cases h
      exact .refl
  | cons move moves ih =>
      unfold script? at h
      split at h
      · rename_i next hmove
        exact .head (Step.of_move hprogram hstarts hanswer hmove) (ih h)
      · exact absurd h (by simp)

end Pool
