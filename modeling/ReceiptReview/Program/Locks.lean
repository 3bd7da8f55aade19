import ReceiptReview.Program.Pool

/-!
# Locks that the threads of a pool hold

Who holds which lock is read off the shared state.  A thread acquires a lock with a
request, gives it up with a request, and loses it when it dies.

If a lock is acquired only while nobody else holds it, no lock has two holders in any
reachable state (`Run.heldOnce`).  If it leaves its holder only with a request that
gives it up, or by the death of the holder, a living thread holds it until such a
request (`PoolRules.Keeps.later`, `Run.holds`).
-/

/-- No lock has two holders. -/
def HeldOnce {κ ι : Type} (holders : κ → ι → Prop) : Prop :=
  ∀ lock i j, holders lock i → holders lock j → i = j

/-- Whoever acquires a lock becomes its one holder. -/
def AcquiresFree {κ ι : Type} (before after : κ → ι → Prop) : Prop :=
  ∀ lock i, after lock i → before lock i ∨
    (∀ j, before lock j → j = i) ∧ ∀ j, after lock j → before lock j ∨ j = i

namespace AcquiresFree

variable {κ ι : Type} {before after : κ → ι → Prop}

theorem of_le (hle : ∀ lock i, after lock i → before lock i) : AcquiresFree before after :=
  fun lock i hafter => .inl (hle lock i hafter)

theorem refl (before : κ → ι → Prop) : AcquiresFree before before :=
  of_le fun _ _ => id

theorem acquire {lock : κ} {i : ι} (hfree : ∀ j, before lock j → j = i)
    (hafter : ∀ key j, after key j → before key j ∨ key = lock ∧ j = i) :
    AcquiresFree before after := by
  intro key j hj
  rcases hafter key j hj with hbefore | ⟨rfl, rfl⟩
  · exact .inl hbefore
  · exact .inr ⟨hfree, fun k hk => (hafter key k hk).imp_right And.right⟩

end AcquiresFree

theorem HeldOnce.acquires {κ ι : Type} {before after : κ → ι → Prop} (h : HeldOnce before)
    (hacquires : AcquiresFree before after) : HeldOnce after := by
  intro lock i j hi hj
  rcases hacquires lock i hi with hi' | ⟨hfree, honly⟩
  · rcases hacquires lock j hj with hj' | ⟨hfree, -⟩
    · exact h lock i j hi' hj'
    · exact hfree i hi'
  · rcases honly j hj with hj' | hji
    · exact (hfree j hj').symm
    · exact hji.symm

variable {ι σ κ Req : Type} {Ans : Req → Type} {ε α : Type}

/-- A lock leaves its holder only with a request that gives it up, or when the holder
dies. -/
structure PoolRules.Keeps (rules : PoolRules ι σ Req Ans ε α) (holders : σ → κ → ι → Prop)
    (givesUp : Req → Bool) : Prop where
  others : ∀ {s s' lock i}, rules.others s s' → holders s lock i → holders s' lock i
  starts : ∀ {s s' lock i j}, rules.starts j s s' → holders s lock i → holders s' lock i
  serves : ∀ {s s' r answer lock i j}, rules.serves j s r answer s' →
    (i = j → givesUp r = false) → holders s lock i → holders s' lock i
  dies : ∀ {s s' lock i j}, rules.dies j s s' → i ≠ j → holders s lock i → holders s' lock i

variable {rules : PoolRules ι σ Req Ans ε α} {holders : σ → κ → ι → Prop} {givesUp : Req → Bool}
variable [DecidableEq ι] {s : σ} {pool pool' : Pool ι σ Req Ans ε α} {lock : κ} {i : ι}

namespace PoolRules.Keeps

/-- A step leaves a lock with its holder, unless the holder dies or gives it up. -/
theorem step (hkeeps : rules.Keeps holders givesUp) (hstep : Pool.Step rules pool pool')
    (hholds : holders pool.shared lock i) (halive : ∀ past, pool'.threads i ≠ some ⟨past, none⟩)
    (hopen : ∀ r answer, pool'.past i = ⟨r, answer⟩ :: pool.past i → givesUp r = false) :
    holders pool'.shared lock i := by
  cases hstep with
  | others hothers => exact hkeeps.others hothers hholds
  | start _ hstarts => exact hkeeps.starts hstarts hholds
  | @serve j past r _ answer _ hthread hserves =>
      refine hkeeps.serves hserves (fun hij => ?_) hholds
      subst hij
      apply hopen r answer
      rw [Pool.past_update_self, Pool.past_of_thread hthread]
  | @die j past _ _ _ hdies =>
      refine hkeeps.dies hdies (fun hij => ?_) hholds
      subst hij
      exact halive past (Pool.threads_update_self ..)

/-- A living thread holds its lock as long as it has not given it up. -/
theorem later (hkeeps : rules.Keeps holders givesUp)
    (hlater : Relation.ReflTransGen (Pool.Step rules) pool pool')
    (hholds : holders pool.shared lock i) (halive : ∀ past, pool'.threads i ≠ some ⟨past, none⟩)
    (hopen : ∀ exchange older, exchange :: older <:+ pool'.past i → pool.past i <:+ older →
      givesUp exchange.request = false) : holders pool'.shared lock i := by
  induction hlater with
  | refl => exact hholds
  | @tail between after hbetween hstep ih =>
      have hheld : holders between.shared lock i := by
        apply ih
        · exact fun past hdead => halive past (hstep.dead hdead)
        · exact fun exchange older hpast =>
            hopen exchange older (hpast.trans (hstep.past_suffix i))
      refine hkeeps.step hstep hheld halive fun r answer hpast => ?_
      refine hopen ⟨r, answer⟩ _ ?_ (Pool.past_suffix_later hbetween i)
      rewrite [hpast]
      exact List.suffix_rfl

end PoolRules.Keeps

namespace Pool

/-- A lock that is acquired only while nobody else holds it has one holder. -/
theorem Run.heldOnce (h : Run rules s pool) (hstart : HeldOnce (holders s))
    (hmoves : ∀ s s', rules.Moves s s' → AcquiresFree (holders s) (holders s')) :
    HeldOnce (holders pool.shared) := by
  have hkept : ∀ s s', HeldOnce (holders s) → rules.Moves s s' → HeldOnce (holders s') :=
    fun s s' hs hstep => hs.acquires (hmoves s s' hstep)
  exact h.shared_invariant hstart hkept

/-- A living thread that, by its transcript, has acquired a lock and not given it up
holds it. -/
theorem Run.holds {Holding : Transcript Req Ans → Prop} (h : Run rules s pool)
    (hkeeps : rules.Keeps holders givesUp) (hstart : ¬ Holding [])
    (hserves : ∀ (before after : Pool ι σ Req Ans ε α) past r next answer, Run rules s before →
      before.threads i = some ⟨past, some (.call r next)⟩ →
      rules.serves i before.shared r answer after.shared → Holding (⟨r, answer⟩ :: past) →
      holders after.shared lock i ∨ Holding past ∧ givesUp r = false)
    {past : Transcript Req Ans} {p : Program Req Ans ε α}
    (hthread : pool.threads i = some ⟨past, some p⟩) (hholding : Holding past) :
    holders pool.shared lock i := by
  induction h generalizing past p with
  | initial => exact absurd hthread (by simp [Pool.initial])
  | @step before after hrun hstep ih =>
      rcases hstep.thread_cases hthread with
        hsame | ⟨hstarted, -⟩ | ⟨past, r, next, answer, hserved, hnext, hanswer⟩ |
        ⟨_, _, -, hdied, -⟩
      · refine hkeeps.step hstep (ih hsame hholding) (fun dead hdead => ?_) fun r answer hpast => ?_
        · exact absurd (hdead.symm.trans hthread) (by simp)
        · -- the transcript of the thread has not grown
          rw [past_of_thread hthread, past_of_thread hsame] at hpast
          exact absurd hpast.symm (List.cons_ne_self _ _)
      · cases hstarted
        exact absurd hholding hstart
      · cases hnext
        rcases hserves before after past r next answer hrun hserved hanswer hholding with
          hheld | ⟨hbefore, hkept⟩
        · exact hheld
        · exact hkeeps.serves hanswer (fun _ => hkept) (ih hserved hbefore)
      · exact absurd hdied (by simp)

end Pool
