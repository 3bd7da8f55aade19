/-!
# Programs that call their environment

A service method that is not one transaction is a sequence of requests to its
environment (queries, transactions, locks, storage), and other threads may act
between any two of them.  `Program` is the syntax of such a method: it ends
with a value or an exception, or it makes a request and continues with the
answer.

Its meaning is relative to two relations on the states of the environment:
`serves` says how a request is answered, `rely` what the other threads may do
in between.  `Executes` is the operational semantics, `wp` the weakest
precondition, `wp_iff` says that they agree, and the rules `wp_bind`,
`wp_tryCatch` and `wp_mono` follow the structure of the program.
-/

/-- A program over the requests `Req` with answers `Ans`, exceptions `ε` and
result `α`. -/
inductive Program (Req : Type) (Ans : Req → Type) (ε α : Type) : Type
  | done (result : Except ε α)
  | call (request : Req) (next : Ans request → Program Req Ans ε α)

namespace Program

variable {Req : Type} {Ans : Req → Type} {ε α β : Type}

/-- Sequential composition; an exception ends the program. -/
def bind : Program Req Ans ε α → (α → Program Req Ans ε β) → Program Req Ans ε β
  | done (.ok a), f => f a
  | done (.error e), _ => done (.error e)
  | call request next, f => call request fun answer => (next answer).bind f

instance : Monad (Program Req Ans ε) where
  pure a := done (.ok a)
  bind := bind

theorem bind_bind {γ : Type} {p : Program Req Ans ε α} {f : α → Program Req Ans ε β}
    {g : β → Program Req Ans ε γ} : p >>= f >>= g = p >>= fun a => f a >>= g := by
  show (p.bind f).bind g = p.bind fun a => (f a).bind g
  induction p with
  | done result => cases result <;> rfl
  | call r next ih => exact congrArg (call r) (funext fun answer => ih answer)

/-- `try p catch e => handler e`. -/
def tryCatch : Program Req Ans ε α → (ε → Program Req Ans ε α) → Program Req Ans ε α
  | done (.ok a), _ => done (.ok a)
  | done (.error e), handler => handler e
  | call request next, handler => call request fun answer => (next answer).tryCatch handler

/-- `try p finally q`: `q` runs whether `p` ended with a value or an exception. -/
def tryFinally (p : Program Req Ans ε α) (q : Program Req Ans ε Unit) : Program Req Ans ε α :=
  match p with
  | done result => q.bind fun _ => done result
  | call request next => call request fun answer => (next answer).tryFinally q

def throw (e : ε) : Program Req Ans ε α := done (.error e)

/-- Make a request and return its answer. -/
def request (r : Req) : Program Req Ans ε (Ans r) := call r fun answer => done (.ok answer)

/-- The outcome of a call that may have thrown. -/
def ofExcept (result : Except ε α) : Program Req Ans ε α := done result

/-! ## Semantics -/

section Semantics

variable {σ : Type} (serves : σ → (r : Req) → Ans r → σ → Prop) (rely : σ → σ → Prop)

/-- `Executes serves rely s p result s'`: started in `s`, the program may end
with `result` in `s'`. -/
inductive Executes : σ → Program Req Ans ε α → Except ε α → σ → Prop
  | done {s : σ} {result : Except ε α} : Executes s (.done result) result s
  | call {s s₁ s₂ s₃ : σ} {r : Req} {next : Ans r → Program Req Ans ε α} {answer : Ans r}
      {result : Except ε α} : rely s s₁ → serves s₁ r answer s₂ →
      Executes s₂ (next answer) result s₃ → Executes s (.call r next) result s₃

/-- A program may run where the other threads may do more. -/
theorem Executes.mono {serves : σ → (r : Req) → Ans r → σ → Prop} {rely rely' : σ → σ → Prop}
    (himp : ∀ s s', rely s s' → rely' s s') {s s' : σ} {p : Program Req Ans ε α}
    {result : Except ε α} (h : Executes serves rely s p result s') :
    Executes serves rely' s p result s' := by
  induction h with
  | done => exact .done
  | call hrely hserves _ ih => exact .call (himp _ _ hrely) hserves ih

/-- What every request and every other thread preserves, every program preserves. -/
theorem Executes.invariant {serves : σ → (r : Req) → Ans r → σ → Prop} {rely : σ → σ → Prop}
    {inv : σ → Prop} (hrely : ∀ s s', inv s → rely s s' → inv s')
    (hserves : ∀ s r answer s', inv s → serves s r answer s' → inv s') {s s' : σ}
    {p : Program Req Ans ε α} {result : Except ε α} (h : Executes serves rely s p result s')
    (hs : inv s) : inv s' := by
  induction h with
  | done => exact hs
  | call hothers hanswer _ ih => exact ih (hserves _ _ _ _ (hrely _ _ hs hothers) hanswer)

/-- The weakest precondition of `post`: it holds of every outcome of the program. -/
def wp : Program Req Ans ε α → (Except ε α → σ → Prop) → σ → Prop
  | done result, post, s => post result s
  | call r next, post, s =>
      ∀ s₁, rely s s₁ → ∀ answer s₂, serves s₁ r answer s₂ → wp (next answer) post s₂

variable {serves rely}

theorem wp_iff {p : Program Req Ans ε α} {post : Except ε α → σ → Prop} {s : σ} :
    wp serves rely p post s ↔ ∀ result s', Executes serves rely s p result s' → post result s' := by
  induction p generalizing s with
  | done result =>
      constructor
      · intro h result' s' hexec
        cases hexec
        exact h
      · intro h
        exact h result s .done
  | call r next ih =>
      constructor
      · intro h result s' hexec
        cases hexec with
        | call hrely hserves hrest => exact (ih _).mp (h _ hrely _ _ hserves) result s' hrest
      · intro h s₁ hrely answer s₂ hserves
        exact (ih answer).mpr fun result s' hrest => h result s' (.call hrely hserves hrest)

theorem wp_mono {p : Program Req Ans ε α} {post post' : Except ε α → σ → Prop} {s : σ}
    (h : wp serves rely p post s) (himp : ∀ result s', post result s' → post' result s') :
    wp serves rely p post' s := by
  induction p generalizing s with
  | done result => exact himp _ _ h
  | call r next ih =>
      exact fun s₁ hrely answer s₂ hserves => ih answer (h s₁ hrely answer s₂ hserves)

/-- The postcondition of the first part of a sequence. -/
def andThen (serves : σ → (r : Req) → Ans r → σ → Prop) (rely : σ → σ → Prop)
    (f : α → Program Req Ans ε β) (post : Except ε β → σ → Prop) : Except ε α → σ → Prop
  | .ok a, s => wp serves rely (f a) post s
  | .error e, s => post (.error e) s

/-- The postcondition of a guarded body. -/
def orElse (serves : σ → (r : Req) → Ans r → σ → Prop) (rely : σ → σ → Prop)
    (handler : ε → Program Req Ans ε α) (post : Except ε α → σ → Prop) : Except ε α → σ → Prop
  | .ok a, s => post (.ok a) s
  | .error e, s => wp serves rely (handler e) post s

theorem wp_bind {p : Program Req Ans ε α} {f : α → Program Req Ans ε β}
    {post : Except ε β → σ → Prop} {s : σ} :
    wp serves rely (p >>= f) post s ↔ wp serves rely p (andThen serves rely f post) s := by
  show wp serves rely (p.bind f) post s ↔ _
  induction p generalizing s with
  | done result => cases result <;> rfl
  | call r next ih =>
      simp only [bind, wp]
      exact forall₂_congr fun s₁ _ => forall₂_congr fun answer s₂ => imp_congr_right fun _ =>
        ih answer

theorem wp_tryCatch {p : Program Req Ans ε α} {handler : ε → Program Req Ans ε α}
    {post : Except ε α → σ → Prop} {s : σ} :
    wp serves rely (p.tryCatch handler) post s ↔
      wp serves rely p (orElse serves rely handler post) s := by
  induction p generalizing s with
  | done result => cases result <;> rfl
  | call r next ih =>
      simp only [tryCatch, wp]
      exact forall₂_congr fun s₁ _ => forall₂_congr fun answer s₂ => imp_congr_right fun _ =>
        ih answer

theorem wp_tryFinally {p : Program Req Ans ε α} {q : Program Req Ans ε Unit}
    {post : Except ε α → σ → Prop} {s : σ} :
    wp serves rely (p.tryFinally q) post s ↔
      wp serves rely p
        (fun result => wp serves rely (q.bind fun _ => .done result) post) s := by
  induction p generalizing s with
  | done result => rfl
  | call r next ih =>
      simp only [tryFinally, wp]
      exact forall₂_congr fun s₁ _ => forall₂_congr fun answer s₂ => imp_congr_right fun _ =>
        ih answer

@[simp] theorem wp_ofExcept {result : Except ε α} {post : Except ε α → σ → Prop} {s : σ} :
    wp serves rely (ofExcept result) post s ↔ post result s := Iff.rfl

end Semantics

/-! ## Running a program alone -/

/-- Run a program against an environment that answers by a function. -/
def run {σ : Type} (answer : (r : Req) → σ → Ans r × σ) :
    Program Req Ans ε α → σ → Except ε α × σ
  | done result, s => (result, s)
  | call r next, s => (next (answer r s).1).run answer (answer r s).2

theorem run_bind {σ : Type} {answer : (r : Req) → σ → Ans r × σ} {p : Program Req Ans ε α}
    {f : α → Program Req Ans ε β} {s : σ} :
    (p >>= f).run answer s =
      match p.run answer s with
      | (.ok a, s') => (f a).run answer s'
      | (.error e, s') => (.error e, s') := by
  show (p.bind f).run answer s = _
  induction p generalizing s with
  | done result => cases result <;> rfl
  | call r next ih => exact ih _

/-- A run against an answering function is an execution. -/
theorem executes_run {σ : Type} {serves : σ → (r : Req) → Ans r → σ → Prop} {rely : σ → σ → Prop}
    {answer : (r : Req) → σ → Ans r × σ} (hrely : ∀ s, rely s s)
    (hserves : ∀ s r, serves s r (answer r s).1 (answer r s).2) (p : Program Req Ans ε α) (s : σ) :
    Executes serves rely s p (p.run answer s).1 (p.run answer s).2 := by
  induction p generalizing s with
  | done result => exact .done
  | call r next ih => exact .call (hrely s) (hserves s r) (ih _ _)

end Program
