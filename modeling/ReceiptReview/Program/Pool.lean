import Mathlib.Logic.Function.Basic
import Mathlib.Logic.Relation
import ReceiptReview.Program.Transcript

/-!
# Programs that run side by side

A pool runs any number of programs over one shared state.  A thread starts at
any time, makes one request after the other, and may die between two of them;
the environment acts in between.  How the shared state takes part in this is a
parameter (`PoolRules`).

A pool may carry more in its shared state than another one with the same threads;
forgetting it gives a reachable pool of the other (`Run.map`).

Two rules carry over to every reachable pool.  What every step of the shared state
preserves holds of it (`Run.shared_invariant`), and what holds along the programs of
the threads holds of what is left of them (`Run.along`).  Two more tell where things
come from: each exchange of a transcript (`Run.served`) and each entry of a log
(`Run.added`) belongs to a step of the run.
-/

/-- A thread: its exchanges so far and what is left of its program.  Nothing is
left of a thread that has died. -/
structure Thread (Req : Type) (Ans : Req → Type) (ε α : Type) where
  past : Transcript Req Ans
  rest : Option (Program Req Ans ε α)

structure Pool (ι σ Req : Type) (Ans : Req → Type) (ε α : Type) where
  shared : σ
  threads : ι → Option (Thread Req Ans ε α)

/-- The programs of the threads, and how each kind of step moves the shared state. -/
structure PoolRules (ι σ Req : Type) (Ans : Req → Type) (ε α : Type) where
  program : ι → Program Req Ans ε α
  starts : ι → σ → σ → Prop
  serves : ι → σ → (r : Req) → Ans r → σ → Prop
  dies : ι → σ → σ → Prop
  others : σ → σ → Prop

/-- One step of the shared state, whoever takes it. -/
def PoolRules.Moves {ι σ Req : Type} {Ans : Req → Type} {ε α : Type}
    (rules : PoolRules ι σ Req Ans ε α) (s s' : σ) : Prop :=
  rules.others s s' ∨ ∃ i, rules.starts i s s' ∨ rules.dies i s s' ∨
    ∃ r answer, rules.serves i s r answer s'

/-- The same threads on two shared states: each step on the first is, under `f`,
the same step on the second, or one that only the first knows. -/
structure PoolRules.Simulates {ι σ τ Req : Type} {Ans : Req → Type} {ε α : Type}
    (rules : PoolRules ι σ Req Ans ε α) (rules' : PoolRules ι τ Req Ans ε α) (f : σ → τ) :
    Prop where
  program : rules'.program = rules.program
  starts : ∀ {i s s'}, rules.starts i s s' → rules'.starts i (f s) (f s')
  serves : ∀ {i s r answer s'}, rules.serves i s r answer s' →
    rules'.serves i (f s) r answer (f s')
  dies : ∀ {i s s'}, rules.dies i s s' → rules'.dies i (f s) (f s')
  others : ∀ {s s'}, rules.others s s' → f s' = f s ∨ rules'.others (f s) (f s')

namespace Pool

variable {ι σ Req : Type} {Ans : Req → Type} {ε α : Type}

/-- The pool before any thread has started. -/
def initial (s : σ) : Pool ι σ Req Ans ε α where
  shared := s
  threads _ := none

/-- The transcript of a thread, empty before it starts. -/
def past (pool : Pool ι σ Req Ans ε α) (i : ι) : Transcript Req Ans :=
  (pool.threads i).elim [] Thread.past

/-- The thread has ended with this outcome. -/
def Ended (pool : Pool ι σ Req Ans ε α) (i : ι) (outcome : Except ε α) : Prop :=
  pool.threads i = some ⟨pool.past i, some (.done outcome)⟩

/-- The outcome of a thread that has ended. -/
def outcome? (pool : Pool ι σ Req Ans ε α) (i : ι) : Option (Except ε α) :=
  match pool.threads i with
  | some ⟨_, some (.done outcome)⟩ => some outcome
  | _ => none

theorem ended_of_outcome? {pool : Pool ι σ Req Ans ε α} {i : ι} {outcome : Except ε α}
    (h : pool.outcome? i = some outcome) : pool.Ended i outcome := by
  unfold outcome? at h
  split at h
  · rename_i hthread
    cases h
    rw [Ended, past, hthread]
    rfl
  · exact absurd h (by simp)

/-- The thread has ended with a result of this kind. -/
def returns (pool : Pool ι σ Req Ans ε α) (i : ι) (p : α → Bool) : Bool :=
  match pool.outcome? i with
  | some (.ok result) => p result
  | _ => false

theorem ended_of_returns {pool : Pool ι σ Req Ans ε α} {i : ι} {p : α → Bool}
    (h : pool.returns i p = true) : ∃ result, pool.Ended i (.ok result) ∧ p result = true := by
  unfold returns at h
  split at h
  · rename_i result houtcome
    exact ⟨result, ended_of_outcome? houtcome, h⟩
  · exact absurd h (by simp)

theorem past_of_thread {pool : Pool ι σ Req Ans ε α} {i : ι} {thread : Thread Req Ans ε α}
    (h : pool.threads i = some thread) : pool.past i = thread.past := by
  rw [past, h]
  rfl

/-- The threads of a pool over the image of its shared state. -/
def map {τ : Type} (f : σ → τ) (pool : Pool ι σ Req Ans ε α) : Pool ι τ Req Ans ε α where
  shared := f pool.shared
  threads := pool.threads

@[simp] theorem shared_map {τ : Type} (f : σ → τ) (pool : Pool ι σ Req Ans ε α) :
    (pool.map f).shared = f pool.shared := rfl

@[simp] theorem threads_map {τ : Type} (f : σ → τ) (pool : Pool ι σ Req Ans ε α) :
    (pool.map f).threads = pool.threads := rfl

variable [DecidableEq ι]

/-- The pool after a step of the thread `i`. -/
def update (pool : Pool ι σ Req Ans ε α) (s' : σ) (i : ι) (thread : Thread Req Ans ε α) :
    Pool ι σ Req Ans ε α where
  shared := s'
  threads := Function.update pool.threads i (some thread)

@[simp] theorem shared_update (pool : Pool ι σ Req Ans ε α) (s' : σ) (i : ι)
    (thread : Thread Req Ans ε α) : (pool.update s' i thread).shared = s' := rfl

@[simp] theorem threads_update_self (pool : Pool ι σ Req Ans ε α) (s' : σ) (i : ι)
    (thread : Thread Req Ans ε α) : (pool.update s' i thread).threads i = some thread :=
  Function.update_self ..

theorem threads_update_of_ne (pool : Pool ι σ Req Ans ε α) (s' : σ) {i j : ι} (hij : i ≠ j)
    (thread : Thread Req Ans ε α) : (pool.update s' j thread).threads i = pool.threads i :=
  Function.update_of_ne hij ..

@[simp] theorem past_update_self (pool : Pool ι σ Req Ans ε α) (s' : σ) (i : ι)
    (thread : Thread Req Ans ε α) : (pool.update s' i thread).past i = thread.past := by
  simp [past]

theorem past_update_of_ne (pool : Pool ι σ Req Ans ε α) (s' : σ) {i j : ι} (hij : i ≠ j)
    (thread : Thread Req Ans ε α) : (pool.update s' j thread).past i = pool.past i := by
  rw [past, threads_update_of_ne _ _ hij, past]

@[simp] theorem update_update_self (pool : Pool ι σ Req Ans ε α) (s s' : σ) (i : ι)
    (thread thread' : Thread Req Ans ε α) :
    (pool.update s i thread).update s' i thread' = pool.update s' i thread' := by
  simp [update]

variable (rules : PoolRules ι σ Req Ans ε α)

inductive Step : Pool ι σ Req Ans ε α → Pool ι σ Req Ans ε α → Prop
  | others {pool : Pool ι σ Req Ans ε α} {s' : σ} : rules.others pool.shared s' →
      Step pool { pool with shared := s' }
  | start {pool : Pool ι σ Req Ans ε α} {i : ι} {s' : σ} : pool.threads i = none →
      rules.starts i pool.shared s' →
      Step pool (pool.update s' i ⟨[], some (rules.program i)⟩)
  | serve {pool : Pool ι σ Req Ans ε α} {i : ι} {past : Transcript Req Ans} {r : Req}
      {next : Ans r → Program Req Ans ε α} {answer : Ans r} {s' : σ} :
      pool.threads i = some ⟨past, some (.call r next)⟩ →
      rules.serves i pool.shared r answer s' →
      Step pool (pool.update s' i ⟨⟨r, answer⟩ :: past, some (next answer)⟩)
  | die {pool : Pool ι σ Req Ans ε α} {i : ι} {past : Transcript Req Ans}
      {p : Program Req Ans ε α} {s' : σ} : pool.threads i = some ⟨past, some p⟩ →
      rules.dies i pool.shared s' →
      Step pool (pool.update s' i ⟨past, none⟩)

/-- The pools that are reached from the shared state `s`. -/
inductive Run (s : σ) : Pool ι σ Req Ans ε α → Prop
  | initial : Run s (.initial s)
  | step {pool pool' : Pool ι σ Req Ans ε α} : Run s pool → Step rules pool pool' → Run s pool'

variable {rules} {s : σ} {pool pool' : Pool ι σ Req Ans ε α}

theorem Step.moves (h : Step rules pool pool') : rules.Moves pool.shared pool'.shared := by
  cases h with
  | others hothers => exact .inl hothers
  | start _ hstarts => exact .inr ⟨_, .inl hstarts⟩
  | die _ hdies => exact .inr ⟨_, .inr (.inl hdies)⟩
  | serve _ hserves => exact .inr ⟨_, .inr (.inr ⟨_, _, hserves⟩)⟩

/-- What every step of the shared state preserves holds of every reachable one. -/
theorem Run.shared_invariant {inv : σ → Prop} (h : Run rules s pool) (hinitial : inv s)
    (hmoves : ∀ s s', inv s → rules.Moves s s' → inv s') : inv pool.shared := by
  induction h with
  | initial => exact hinitial
  | step _ hstep ih => exact hmoves _ _ ih hstep.moves

/-- A pool that is reached later is reached. -/
theorem Run.later (h : Run rules s pool)
    (hlater : Relation.ReflTransGen (Step rules) pool pool') : Run rules s pool' := by
  induction hlater with
  | refl => exact h
  | tail _ hstep ih => exact .step ih hstep

/-- A step under a simulation is a step or leaves the pool as it is. -/
theorem Step.map {τ : Type} {rules' : PoolRules ι τ Req Ans ε α} {f : σ → τ}
    (hrules : rules.Simulates rules' f) (h : Step rules pool pool') :
    pool'.map f = pool.map f ∨ Step rules' (pool.map f) (pool'.map f) := by
  cases h with
  | others hothers =>
      rcases hrules.others hothers with hsame | hothers'
      · exact .inl (congrArg (Pool.mk · pool.threads) hsame)
      · exact .inr (.others hothers')
  | start hnone hstarts =>
      have hstep : Step rules' (pool.map f) _ := .start hnone (hrules.starts hstarts)
      rw [hrules.program] at hstep
      exact .inr hstep
  | serve hthread hserves => exact .inr (.serve hthread (hrules.serves hserves))
  | die hthread hdies => exact .inr (.die hthread (hrules.dies hdies))

theorem Run.map {τ : Type} {rules' : PoolRules ι τ Req Ans ε α} {f : σ → τ}
    (hrules : rules.Simulates rules' f) (h : Run rules s pool) :
    Run rules' (f s) (pool.map f) := by
  induction h with
  | initial => exact .initial
  | step _ hstep ih =>
      rcases hstep.map hrules with hsame | hstep'
      · rwa [hsame]
      · exact .step ih hstep'

/-- A request of a thread that is left with the program `p` is served. -/
theorem Step.serve_of_eq {i : ι} {past : Transcript Req Ans} {p : Program Req Ans ε α} {r : Req}
    {next : Ans r → Program Req Ans ε α} {answer : Ans r} {s' : σ}
    (hthread : pool.threads i = some ⟨past, some p⟩) (hp : p = .call r next)
    (hserves : rules.serves i pool.shared r answer s') :
    Step rules pool (pool.update s' i ⟨⟨r, answer⟩ :: past, some (next answer)⟩) := by
  subst hp
  exact .serve hthread hserves

theorem exists_served {i : ι} {past : Transcript Req Ans} {p : Program Req Ans ε α} {r : Req}
    {next : Ans r → Program Req Ans ε α} {answer : Ans r} {s' : σ}
    (hthread : pool.threads i = some ⟨past, some p⟩) (hp : p = .call r next)
    (hserves : rules.serves i pool.shared r answer s') :
    ∃ pool', Step rules pool pool' ∧ pool'.shared = s' ∧
      pool'.threads i = some ⟨⟨r, answer⟩ :: past, some (next answer)⟩ :=
  ⟨_, .serve_of_eq hthread hp hserves, rfl, threads_update_self ..⟩

/-- A thread may run to its end while nobody else moves. -/
theorem Run.alone {answer : (r : Req) → σ → Ans r × σ} {i : ι}
    (hanswer : ∀ s r, rules.serves i s r (answer r s).1 (answer r s).2)
    {past : Transcript Req Ans} {p : Program Req Ans ε α} (h : Run rules s pool)
    (hthread : pool.threads i = some ⟨past, some p⟩) :
    ∃ pool', Run rules s pool' ∧ pool'.shared = (p.run answer pool.shared).2 := by
  induction p generalizing pool past with
  | done result => exact ⟨pool, h, rfl⟩
  | call r next ih =>
      have hserved := Run.step h (.serve hthread (hanswer pool.shared r))
      exact ih _ hserved (threads_update_self ..)

/-- A thread that runs to its end while nobody else moves has the outcome of its program. -/
theorem Run.alone_ends {answer : (r : Req) → σ → Ans r × σ} {i : ι}
    (hanswer : ∀ s r, rules.serves i s r (answer r s).1 (answer r s).2)
    {past : Transcript Req Ans} {p : Program Req Ans ε α} (h : Run rules s pool)
    (hthread : pool.threads i = some ⟨past, some p⟩) :
    ∃ pool', Run rules s pool' ∧ pool'.shared = (p.run answer pool.shared).2 ∧
      pool'.Ended i (p.run answer pool.shared).1 := by
  induction p generalizing pool past with
  | done result =>
      refine ⟨pool, h, rfl, ?_⟩
      rw [Ended, past_of_thread hthread]
      exact hthread
  | call r next ih =>
      have hserved := Run.step h (.serve hthread (hanswer pool.shared r))
      exact ih _ hserved (threads_update_self ..)

/-- A thread after a step: it is as it was, it has just started, its next request
has been served, or it has died. -/
theorem Step.thread_cases (h : Step rules pool pool') {i : ι} {thread : Thread Req Ans ε α}
    (hthread : pool'.threads i = some thread) :
    pool.threads i = some thread ∨
      thread = ⟨[], some (rules.program i)⟩ ∧ rules.starts i pool.shared pool'.shared ∨
      (∃ past r next answer, pool.threads i = some ⟨past, some (.call r next)⟩ ∧
        thread = ⟨⟨r, answer⟩ :: past, some (next answer)⟩ ∧
        rules.serves i pool.shared r answer pool'.shared) ∨
      ∃ past p, pool.threads i = some ⟨past, some p⟩ ∧ thread = ⟨past, none⟩ ∧
        rules.dies i pool.shared pool'.shared := by
  cases h with
  | others => exact .inl hthread
  | @start j _ _ hstarts =>
      by_cases hij : i = j
      · subst hij
        rw [threads_update_self] at hthread
        exact .inr (.inl ⟨(Option.some.inj hthread).symm, hstarts⟩)
      · rw [threads_update_of_ne _ _ hij] at hthread
        exact .inl hthread
  | @serve j past r next answer _ hserved hserves =>
      by_cases hij : i = j
      · subst hij
        rw [threads_update_self] at hthread
        exact .inr (.inr (.inl ⟨past, r, next, answer, hserved,
          (Option.some.inj hthread).symm, hserves⟩))
      · rw [threads_update_of_ne _ _ hij] at hthread
        exact .inl hthread
  | @die j past p _ hdied hdies =>
      by_cases hij : i = j
      · subst hij
        rw [threads_update_self] at hthread
        exact .inr (.inr (.inr ⟨past, p, hdied, (Option.some.inj hthread).symm, hdies⟩))
      · rw [threads_update_of_ne _ _ hij] at hthread
        exact .inl hthread

/-- What a step makes of a living thread: it leaves it as it was, serves its next
request, or lets it die. -/
theorem Step.thread_moves (h : Step rules pool pool') {i : ι} {past : Transcript Req Ans}
    {p : Program Req Ans ε α} (hthread : pool.threads i = some ⟨past, some p⟩) :
    pool'.threads i = some ⟨past, some p⟩ ∨
      (∃ r next answer, p = .call r next ∧
        pool'.threads i = some ⟨⟨r, answer⟩ :: past, some (next answer)⟩ ∧
        rules.serves i pool.shared r answer pool'.shared) ∨
      pool'.threads i = some ⟨past, none⟩ := by
  cases h with
  | others => exact .inl hthread
  | @start j _ hnone =>
      have hij : i ≠ j := by
        rintro rfl
        exact absurd (hnone.symm.trans hthread) (by simp)
      rw [threads_update_of_ne _ _ hij]
      exact .inl hthread
  | @serve j past' r next answer s' hserved hserves =>
      by_cases hij : i = j
      · subst hij
        cases hserved.symm.trans hthread
        exact .inr (.inl ⟨r, next, answer, rfl, threads_update_self .., hserves⟩)
      · rw [threads_update_of_ne _ _ hij]
        exact .inl hthread
  | @die j past' p' s' hdied =>
      by_cases hij : i = j
      · subst hij
        cases hdied.symm.trans hthread
        exact .inr (.inr (threads_update_self ..))
      · rw [threads_update_of_ne _ _ hij]
        exact .inl hthread

/-- The transcripts after a step: all are as they were, or one request of one
thread has been served. -/
theorem Step.past_cases (h : Step rules pool pool') :
    (∀ i, pool'.past i = pool.past i) ∧
        (rules.others pool.shared pool'.shared ∨
          ∃ i, rules.starts i pool.shared pool'.shared ∨ rules.dies i pool.shared pool'.shared) ∨
      ∃ i r answer next, pool.threads i = some ⟨pool.past i, some (.call r next)⟩ ∧
        rules.serves i pool.shared r answer pool'.shared ∧
        pool'.past i = ⟨r, answer⟩ :: pool.past i ∧ ∀ j, j ≠ i → pool'.past j = pool.past j := by
  cases h with
  | others hothers => exact .inl ⟨fun _ => rfl, .inl hothers⟩
  | @start j _ hnone hstarts =>
      refine .inl ⟨fun i => ?_, .inr ⟨j, .inl hstarts⟩⟩
      by_cases hij : i = j
      · subst hij
        rw [past_update_self, past, hnone]
        rfl
      · rw [past_update_of_ne _ _ hij]
  | @serve j past r next answer _ hthread hserves =>
      have hpast := past_of_thread hthread
      refine .inr ⟨j, r, answer, next, by rw [hpast]; exact hthread, hserves, ?_, ?_⟩
      · rw [past_update_self, hpast]
      · intro i hij
        rw [past_update_of_ne _ _ hij]
  | @die j _ _ _ hthread hdies =>
      refine .inl ⟨fun i => ?_, .inr ⟨j, .inr hdies⟩⟩
      by_cases hij : i = j
      · subst hij
        rw [past_update_self, past_of_thread hthread]
      · rw [past_update_of_ne _ _ hij]

/-- Nothing is served to a thread that has died. -/
theorem Step.dead (h : Step rules pool pool') {i : ι} {past : Transcript Req Ans}
    (hdead : pool.threads i = some ⟨past, none⟩) : pool'.threads i = some ⟨past, none⟩ := by
  cases h with
  | others => exact hdead
  | @start j _ hnone | @serve j _ _ _ _ _ hnone | @die j _ _ _ hnone =>
      have hij : i ≠ j := by
        rintro rfl
        exact absurd (hnone.symm.trans hdead) (by simp)
      rw [threads_update_of_ne _ _ hij]
      exact hdead

theorem dead_later (hlater : Relation.ReflTransGen (Step rules) pool pool') {i : ι}
    {past : Transcript Req Ans} (hdead : pool.threads i = some ⟨past, none⟩) :
    pool'.threads i = some ⟨past, none⟩ := by
  induction hlater with
  | refl => exact hdead
  | tail _ hstep ih => exact hstep.dead ih

/-- A thread with something left has not died before. -/
theorem alive_before (hlater : Relation.ReflTransGen (Step rules) pool pool') {i : ι}
    {past : Transcript Req Ans} {p : Program Req Ans ε α}
    (hthread : pool'.threads i = some ⟨past, some p⟩) (dead : Transcript Req Ans) :
    pool.threads i ≠ some ⟨dead, none⟩ :=
  fun hdead => absurd ((dead_later hlater hdead).symm.trans hthread) (by simp)

theorem Step.past_suffix (h : Step rules pool pool') (i : ι) : pool.past i <:+ pool'.past i := by
  rcases h.past_cases with ⟨hsame, -⟩ | ⟨j, r, answer, next, -, -, hpast, hothers⟩
  · rewrite [hsame]
    exact List.suffix_rfl
  · by_cases hij : i = j
    · subst hij
      rw [hpast]
      exact List.suffix_cons ..
    · rewrite [hothers i hij]
      exact List.suffix_rfl

section Logs

variable {β : Type}

/-- What every step may extend has grown in every pool that is reached later. -/
theorem log_later (log : Pool ι σ Req Ans ε α → List β)
    (hstep : ∀ before after, Relation.ReflTransGen (Step rules) pool before →
      Step rules before after → log before <:+ log after)
    (hlater : Relation.ReflTransGen (Step rules) pool pool') : log pool <:+ log pool' := by
  induction hlater with
  | refl => exact List.suffix_rfl
  | tail hbetween hlast ih => exact ih.trans (hstep _ _ hbetween hlast)

/-- Whatever has been added to a log that steps add to, one entry at a time, was added by a
step of the run. -/
theorem Run.added {log : σ → List β} (h : Run rules s pool)
    (hcases : ∀ before after, Run rules s before → Step rules before after →
      log after.shared = log before.shared ∨
        ∃ entry, log after.shared = entry :: log before.shared)
    {entry : β} {older : List β} (hupto : entry :: older <:+ log pool.shared)
    (hnew : ¬ entry :: older <:+ log s) :
    ∃ before after, Run rules s before ∧ Step rules before after ∧
      Relation.ReflTransGen (Step rules) after pool ∧ log before.shared = older ∧
      log after.shared = entry :: older := by
  induction h with
  | initial => exact absurd hupto hnew
  | @step pool pool' hrun hstep ih =>
      have hearlier : entry :: older <:+ log pool.shared → ∃ before after, Run rules s before ∧
          Step rules before after ∧ Relation.ReflTransGen (Step rules) after pool' ∧
          log before.shared = older ∧ log after.shared = entry :: older := by
        intro hold
        obtain ⟨before, after, hbefore, hadding, hlater, hlogs⟩ := ih hold
        exact ⟨before, after, hbefore, hadding, hlater.tail hstep, hlogs⟩
      rcases hcases pool pool' hrun hstep with hsame | ⟨added, hadded⟩
      · rw [hsame] at hupto
        exact hearlier hupto
      · rw [hadded] at hupto
        rcases List.suffix_cons_iff.mp hupto with heq | hold
        · obtain ⟨rfl, rfl⟩ := List.cons.inj heq
          exact ⟨pool, pool', hrun, hstep, .refl, rfl, hadded⟩
        · exact hearlier hold

end Logs

theorem past_suffix_later (hlater : Relation.ReflTransGen (Step rules) pool pool') (i : ι) :
    pool.past i <:+ pool'.past i :=
  log_later (·.past i) (fun _ _ _ hstep => hstep.past_suffix i) hlater

/-- Each exchange of a transcript is a step of the run. -/
theorem Run.served (h : Run rules s pool) {i : ι} {exchange : Exchange Req Ans}
    {older : Transcript Req Ans} (hpast : exchange :: older <:+ pool.past i) :
    ∃ before after next, Run rules s before ∧ Step rules before after ∧
      Relation.ReflTransGen (Step rules) after pool ∧
      before.threads i = some ⟨older, some (.call exchange.request next)⟩ ∧
      rules.serves i before.shared exchange.request exchange.answer after.shared ∧
      after.past i = exchange :: older := by
  induction h with
  | initial => exact absurd (hpast.subset List.mem_cons_self) List.not_mem_nil
  | @step pool pool' hrun hstep ih =>
      have hlater : exchange :: older <:+ pool.past i → ∃ before after next, Run rules s before ∧
          Step rules before after ∧ Relation.ReflTransGen (Step rules) after pool' ∧
          before.threads i = some ⟨older, some (.call exchange.request next)⟩ ∧
          rules.serves i before.shared exchange.request exchange.answer after.shared ∧
          after.past i = exchange :: older := by
        intro hold
        obtain ⟨before, after, next, hbefore, hserving, hafter, hserved⟩ := ih hold
        exact ⟨before, after, next, hbefore, hserving, hafter.tail hstep, hserved⟩
      rcases hstep.past_cases with
        ⟨hsame, -⟩ | ⟨j, r, answer, next, hthread, hserves, hnew, hothers⟩
      · rw [hsame] at hpast
        exact hlater hpast
      · by_cases hij : i = j
        · subst hij
          rw [hnew] at hpast
          rcases List.suffix_cons_iff.mp hpast with heq | hold
          · obtain ⟨rfl, rfl⟩ := List.cons.inj heq
            exact ⟨pool, pool', next, hrun, hstep, .refl, hthread, hserves, hnew⟩
          · exact hlater hold
        · rw [hothers i hij] at hpast
          exact hlater hpast

section Along

variable {possible : (r : Req) → Ans r → Prop} {allows : Transcript Req Ans → Req → Prop}
variable {post : Except ε α → Transcript Req Ans → Prop} {i : ι}

/-- What holds along the program of a thread holds of what is left of it. -/
theorem Run.along (h : Run rules s pool)
    (hserves : ∀ i s r answer s', rules.serves i s r answer s' → possible r answer)
    (hprogram : Program.along possible allows (rules.program i) post [])
    {past : Transcript Req Ans} {p : Program Req Ans ε α}
    (hthread : pool.threads i = some ⟨past, some p⟩) :
    Program.along possible allows p post past := by
  induction h generalizing past p with
  | initial => exact absurd hthread (by simp [Pool.initial])
  | step _ hstep ih =>
      rcases hstep.thread_cases hthread with
        hsame | ⟨hstarted, -⟩ | ⟨_, _, _, answer, hserved, hnext, hanswer⟩ | ⟨_, _, -, hdied, -⟩
      · exact ih hsame
      · cases hstarted
        exact hprogram
      · cases hnext
        exact (ih hserved).2 answer (hserves _ _ _ _ _ hanswer)
      · exact absurd hdied (by simp)

/-- A thread requests only what its transcript allows. -/
theorem Run.allowed (h : Run rules s pool)
    (hserves : ∀ i s r answer s', rules.serves i s r answer s' → possible r answer)
    (hprogram : Program.along possible allows (rules.program i) post [])
    {past : Transcript Req Ans} {r : Req} {next : Ans r → Program Req Ans ε α}
    (hthread : pool.threads i = some ⟨past, some (.call r next)⟩) : allows past r :=
  (h.along hserves hprogram hthread).1

/-- Each request of a transcript was allowed by the part before it. -/
theorem Run.allowed_past (h : Run rules s pool)
    (hserves : ∀ i s r answer s', rules.serves i s r answer s' → possible r answer)
    (hprogram : Program.along possible allows (rules.program i) post [])
    {exchange : Exchange Req Ans} (hmem : exchange ∈ pool.past i) :
    ∃ older, exchange :: older <:+ pool.past i ∧ allows older exchange.request := by
  obtain ⟨newer, older, hpast⟩ := List.append_of_mem hmem
  have hsuffix : exchange :: older <:+ pool.past i := ⟨newer, hpast.symm⟩
  obtain ⟨before, -, next, hbefore, -, -, hthread, -, -⟩ := h.served hsuffix
  exact ⟨older, hsuffix, hbefore.allowed hserves hprogram hthread⟩

/-- A thread ends only as its transcript tells. -/
theorem Run.outcome (h : Run rules s pool)
    (hserves : ∀ i s r answer s', rules.serves i s r answer s' → possible r answer)
    (hprogram : Program.along possible allows (rules.program i) post [])
    {past : Transcript Req Ans} {result : Except ε α}
    (hthread : pool.threads i = some ⟨past, some (.done result)⟩) : post result past :=
  h.along hserves hprogram hthread

/-- What holds along what is left of a thread holds of it later. -/
theorem along_later
    (hserves : ∀ i s r answer s', rules.serves i s r answer s' → possible r answer)
    {past past' : Transcript Req Ans} {p p' : Program Req Ans ε α}
    (hthread : pool.threads i = some ⟨past, some p⟩)
    (halong : Program.along possible allows p post past)
    (hlater : Relation.ReflTransGen (Step rules) pool pool')
    (hthread' : pool'.threads i = some ⟨past', some p'⟩) :
    Program.along possible allows p' post past' := by
  induction hlater using Relation.ReflTransGen.head_induction_on generalizing past p with
  | refl =>
      cases hthread.symm.trans hthread'
      exact halong
  | head hstep hlater ih =>
      rcases hstep.thread_moves hthread with hsame | ⟨r, next, answer, rfl, hnext, hanswer⟩ | hdied
      · exact ih hsame halong
      · exact ih hnext (halong.2 answer (hserves _ _ _ _ _ hanswer))
      · exact absurd ((dead_later hlater hdied).symm.trans hthread') (by simp)

end Along

section Proceeds

variable {goesOn : (r : Req) → (Ans r → Program Req Ans ε α) → Prop} {i : ι}

theorem Run.proceeds (h : Run rules s pool)
    (hprogram : (rules.program i).Proceeds goesOn) {past : Transcript Req Ans}
    {p : Program Req Ans ε α} (hthread : pool.threads i = some ⟨past, some p⟩) :
    p.Proceeds goesOn := by
  induction h generalizing past p with
  | initial => exact absurd hthread (by simp [Pool.initial])
  | step _ hstep ih =>
      rcases hstep.thread_cases hthread with
        hsame | ⟨hstarted, -⟩ | ⟨_, _, _, answer, hserved, hnext, -⟩ | ⟨_, _, -, hdied, -⟩
      · exact ih hsame
      · cases hstarted
        exact hprogram
      · cases hnext
        exact (ih hserved).2 answer
      · exact absurd hdied (by simp)

/-- What is left of a thread after its last exchange. -/
theorem Run.rest (h : Run rules s pool)
    (hprogram : (rules.program i).Proceeds goesOn)
    {exchange : Exchange Req Ans} {older : Transcript Req Ans} {p : Program Req Ans ε α}
    (hthread : pool.threads i = some ⟨exchange :: older, some p⟩) :
    ∃ next, goesOn exchange.request next ∧ p = next exchange.answer := by
  induction h generalizing p with
  | initial => exact absurd hthread (by simp [Pool.initial])
  | step hrun hstep ih =>
      rcases hstep.thread_cases hthread with
        hsame | ⟨hstarted, -⟩ | ⟨_, _, next, _, hserved, hnext, -⟩ | ⟨_, _, -, hdied, -⟩
      · exact ih hsame
      · exact absurd hstarted (by simp)
      · cases hnext
        exact ⟨next, (hrun.proceeds hprogram hserved).1, rfl⟩
      · exact absurd hdied (by simp)

end Proceeds

end Pool
