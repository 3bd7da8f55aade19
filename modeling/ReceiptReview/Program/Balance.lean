import Mathlib.Algebra.BigOperators.Finprod
import ReceiptReview.Program.Pool

/-!
# What threads hold

`total f pool` is what the threads of a pool hold together, where `f` tells from the
transcript of a thread what it holds.  Finitely many threads have started in a
reachable pool, and the others hold nothing.

If each request leaves the balance of the shared state and of the thread that makes
it as it was, the balance of the whole pool stays as it was (`Run.balanced`).
-/

namespace Pool

variable {ι σ Req : Type} {Ans : Req → Type} {ε α : Type}
variable {rules : PoolRules ι σ Req Ans ε α} {s : σ} {pool pool' : Pool ι σ Req Ans ε α}

/-- What all threads hold. -/
noncomputable def total (f : Transcript Req Ans → ℕ) (pool : Pool ι σ Req Ans ε α) : ℕ :=
  ∑ᶠ i, f (pool.past i)

theorem total_congr {f : Transcript Req Ans → ℕ} (h : ∀ i, pool'.past i = pool.past i) :
    total f pool' = total f pool :=
  finsum_congr fun i => congrArg f (h i)

variable {f g : Transcript Req Ans → ℕ}

theorem total_initial (hempty : f [] = 0) :
    total f (.initial s : Pool ι σ Req Ans ε α) = 0 :=
  finsum_eq_zero_of_forall_eq_zero fun _ => hempty

variable [DecidableEq ι]

/-- Finitely many threads have made a request. -/
theorem Run.finite_past (h : Run rules s pool) : {i | pool.past i ≠ []}.Finite := by
  induction h with
  | initial => exact Set.Finite.subset Set.finite_empty fun i hi => hi rfl
  | @step pool pool' _ hstep ih =>
      rcases hstep.past_cases with ⟨hsame, -⟩ | ⟨j, _, _, _, -, -, -, hothers⟩
      · refine ih.subset fun i hi => ?_
        show pool.past i ≠ []
        rw [← hsame]
        exact hi
      · refine (ih.insert j).subset fun i hi => ?_
        by_cases hij : i = j
        · exact .inl hij
        · right
          show pool.past i ≠ []
          rw [← hothers i hij]
          exact hi

theorem Run.finite_support (h : Run rules s pool) (hempty : f [] = 0) :
    Function.HasFiniteSupport fun i => f (pool.past i) := by
  refine h.finite_past.subset fun i hi hnil => hi ?_
  show f (pool.past i) = 0
  rw [hnil, hempty]

theorem Run.total_add (h : Run rules s pool) (hf : f [] = 0) (hg : g [] = 0) :
    total (fun past => f past + g past) pool = total f pool + total g pool :=
  finsum_add_distrib (h.finite_support hf) (h.finite_support hg)

/-- A thread holds at most what all threads hold. -/
theorem Run.le_total (h : Run rules s pool) (f : Transcript Req Ans → ℕ) (hempty : f [] = 0)
    (i : ι) : f (pool.past i) ≤ total f pool :=
  single_le_finsum i (h.finite_support hempty) fun _ => Nat.zero_le _

/-- A step of one thread changes what it holds, and nothing else. -/
theorem Run.total_served (h : Run rules s pool) (hstep : Step rules pool pool') (hempty : f [] = 0)
    {i : ι} (hothers : ∀ j, j ≠ i → pool'.past j = pool.past j) :
    total f pool' + f (pool.past i) = total f pool + f (pool'.past i) := by
  have hrest : ∑ᶠ (j) (_ : j ≠ i), f (pool'.past j) = ∑ᶠ (j) (_ : j ≠ i), f (pool.past j) :=
    finsum_congr fun j => finsum_congr fun hj => congrArg f (hothers j hj)
  calc total f pool' + f (pool.past i)
      = f (pool'.past i) + (∑ᶠ (j) (_ : j ≠ i), f (pool'.past j)) + f (pool.past i) := by
        rw [add_finsum_cond_ne i ((Run.step h hstep).finite_support hempty), total]
    _ = f (pool.past i) + (∑ᶠ (j) (_ : j ≠ i), f (pool.past j)) + f (pool'.past i) := by
        rw [hrest]
        omega
    _ = total f pool + f (pool'.past i) := by
        rw [add_finsum_cond_ne i (h.finite_support hempty), total]

/-- **Conservation.**  What the shared state has spent and the threads hold is what
the shared state has gained, if every request that is allowed leaves this as it was. -/
theorem Run.balanced (spent gained : σ → ℕ) (f : Transcript Req Ans → ℕ)
    {allows : ι → Transcript Req Ans → Req → Prop} (h : Run rules s pool) (hempty : f [] = 0)
    (hinitial : spent s = gained s)
    (hallows : ∀ {pool i past r next}, Run rules s pool →
      pool.threads i = some ⟨past, some (.call r next)⟩ → allows i past r)
    (hserves : ∀ {i s past r answer s'}, allows i past r → rules.serves i s r answer s' →
      spent s' + f (⟨r, answer⟩ :: past) + gained s = spent s + f past + gained s')
    (hquiet : ∀ {s s'}, (rules.others s s' ∨ ∃ i, rules.starts i s s' ∨ rules.dies i s s') →
      spent s' + gained s = spent s + gained s') :
    spent pool.shared + total f pool = gained pool.shared := by
  induction h with
  | initial =>
      rw [total_initial hempty]
      exact hinitial
  | @step pool pool' hrun hstep ih =>
      rcases hstep.past_cases with
        ⟨hsame, hmoves⟩ | ⟨i, r, answer, next, hthread, hserved, hpast, hothers⟩
      · have hbalance := hquiet hmoves
        rw [total_congr hsame]
        omega
      · have hbalance := hserves (hallows hrun hthread) hserved
        have htotal := hrun.total_served hstep hempty hothers
        rw [hpast] at htotal
        omega

end Pool
