import Mathlib.Logic.Function.Basic
import Mathlib.Logic.Relation
import ReceiptReview.Program.Basic

/-!
# Event loops

A program with one thread handles events.  A handler runs until it waits for the answer
to a request, and nothing else runs until then; while it waits, other events are handled
and other handlers go on.  So handlers interleave at their waits and nowhere else.

`Handler` is the syntax, `Handler.settle` runs a handler up to its next wait, and
`EventLoop.Run` lets events and answers come in any order.

A `Contract` states an invariant of the loop and what each handler may rely on while it
waits.  `Handler.Ensures` is the weakest precondition of a handler under a contract: what
it does between two waits keeps the invariant, and the others may rely on it.  If every
handler keeps the contract, the invariant holds whenever the loop is idle (`Run.inv`).
-/

/-- What a handler does at once, or waits for. -/
inductive Act (σ Req : Type)
  | read
  | write (s : σ)
  | wait (request : Req)

@[reducible] def Act.Answer {σ Req : Type} (Ans : Req → Type) : Act σ Req → Type
  | read => σ
  | write _ => Unit
  | wait request => Ans request

abbrev Handler (σ Req : Type) (Ans : Req → Type) (ε α : Type) : Type :=
  Program (Act σ Req) (Act.Answer Ans) ε α

/-- The state that the handlers share, and the requests sent so far, the newest first. -/
structure Site (σ Req : Type) where
  state : σ
  sent : List Req

/-- What the handlers of a loop promise one another. -/
structure Contract (ι σ Req : Type) where
  inv : Site σ Req → Prop
  rely : ι → Site σ Req → Site σ Req → Prop
  refl : ∀ i s, rely i s s
  trans : ∀ i s s' s'', rely i s s' → rely i s' s'' → rely i s s''

/-- What the handler `i` may do between two waits. -/
structure Contract.Guarantees {ι σ Req : Type} (contract : Contract ι σ Req) (i : ι)
    (s s' : Site σ Req) : Prop where
  inv : contract.inv s'
  others : ∀ j, j ≠ i → contract.rely j s s'

/-- A handler that goes further may do what the others rely on. -/
theorem Contract.Guarantees.further {ι σ Req : Type} {contract : Contract ι σ Req} {i : ι}
    {s s' s'' : Site σ Req} (h : contract.Guarantees i s s') (hinv : contract.inv s'')
    (hothers : ∀ j, j ≠ i → contract.rely j s' s'') : contract.Guarantees i s s'' where
  inv := hinv
  others j hj := contract.trans j _ _ _ (h.others j hj) (hothers j hj)

namespace Handler

variable {ι σ Req : Type} {Ans : Req → Type} {ε α β : Type}

def read : Handler σ Req Ans ε σ := .call .read fun s => .done (.ok s)

def modify (f : σ → σ) : Handler σ Req Ans ε Unit :=
  .call .read fun s => .call (.write (f s)) fun _ => .done (.ok ())

def wait (request : Req) : Handler σ Req Ans ε (Ans request) :=
  .call (.wait request) fun answer => .done (.ok answer)

/-- Run a handler until it waits or ends. -/
def settle : Handler σ Req Ans ε α → Site σ Req → Site σ Req × Handler σ Req Ans ε α
  | .done result, s => (s, .done result)
  | .call .read next, s => settle (next s.state) s
  | .call (.write state) next, s => settle (next ()) { s with state }
  | .call (.wait request) next, s =>
      ({ s with sent := request :: s.sent }, .call (.wait request) next)

/-! ## What a handler ensures -/

section Ensures

variable (contract : Contract ι σ Req)
variable (possible : Site σ Req → (request : Req) → Ans request → Prop) (i : ι)

/-- The weakest precondition of `post`, where `start` is the site at which the handler has
gone on last. -/
def Ensures : Handler σ Req Ans ε α → (Except ε α → Site σ Req → Site σ Req → Prop) →
    Site σ Req → Site σ Req → Prop
  | .done result, post, start, s => post result start s
  | .call .read next, post, start, s => Ensures (next s.state) post start s
  | .call (.write state) next, post, start, s => Ensures (next ()) post start { s with state }
  | .call (.wait request) next, post, start, s =>
      contract.Guarantees i start { s with sent := request :: s.sent } ∧
        ∀ s' answer, contract.rely i { s with sent := request :: s.sent } s' → contract.inv s' →
          possible s' request answer → Ensures (next answer) post s' s'

variable {contract possible i} {start s : Site σ Req}

theorem ensures_mono {p : Handler σ Req Ans ε α}
    {post post' : Except ε α → Site σ Req → Site σ Req → Prop}
    (h : Ensures contract possible i p post start s)
    (himp : ∀ result start s, post result start s → post' result start s) :
    Ensures contract possible i p post' start s := by
  induction p generalizing start s with
  | done result => exact himp _ _ _ h
  | call act next ih =>
      cases act with
      | read | write => exact ih _ h
      | wait request =>
          exact ⟨h.1, fun s' answer hrely hinv hpossible =>
            ih _ (h.2 s' answer hrely hinv hpossible)⟩

/-- The postcondition of the first part of a sequence. -/
def thenEnsures (contract : Contract ι σ Req)
    (possible : Site σ Req → (request : Req) → Ans request → Prop) (i : ι)
    (f : α → Handler σ Req Ans ε β) (post : Except ε β → Site σ Req → Site σ Req → Prop) :
    Except ε α → Site σ Req → Site σ Req → Prop
  | .ok a, start, s => Ensures contract possible i (f a) post start s
  | .error e, start, s => post (.error e) start s

/-- The postcondition of a guarded body. -/
def elseEnsures (contract : Contract ι σ Req)
    (possible : Site σ Req → (request : Req) → Ans request → Prop) (i : ι)
    (handler : ε → Handler σ Req Ans ε α)
    (post : Except ε α → Site σ Req → Site σ Req → Prop) :
    Except ε α → Site σ Req → Site σ Req → Prop
  | .ok a, start, s => post (.ok a) start s
  | .error e, start, s => Ensures contract possible i (handler e) post start s

theorem ensures_bind {p : Handler σ Req Ans ε α} {f : α → Handler σ Req Ans ε β}
    {post : Except ε β → Site σ Req → Site σ Req → Prop} :
    Ensures contract possible i (p >>= f) post start s ↔
      Ensures contract possible i p (thenEnsures contract possible i f post) start s := by
  show Ensures contract possible i (p.bind f) post start s ↔ _
  induction p generalizing start s with
  | done result => cases result <;> rfl
  | call act next ih =>
      cases act with
      | read | write => exact ih _
      | wait request =>
          exact and_congr_right fun _ => forall₂_congr fun s' answer =>
            forall₃_congr fun _ _ _ => ih answer

theorem ensures_tryCatch {p : Handler σ Req Ans ε α} {handler : ε → Handler σ Req Ans ε α}
    {post : Except ε α → Site σ Req → Site σ Req → Prop} :
    Ensures contract possible i (p.tryCatch handler) post start s ↔
      Ensures contract possible i p (elseEnsures contract possible i handler post) start s := by
  induction p generalizing start s with
  | done result => cases result <;> rfl
  | call act next ih =>
      cases act with
      | read | write => exact ih _
      | wait request =>
          exact and_congr_right fun _ => forall₂_congr fun s' answer =>
            forall₃_congr fun _ _ _ => ih answer

theorem ensures_tryFinally {p : Handler σ Req Ans ε α} {q : Handler σ Req Ans ε Unit}
    {post : Except ε α → Site σ Req → Site σ Req → Prop} :
    Ensures contract possible i (p.tryFinally q) post start s ↔
      Ensures contract possible i p (fun result =>
        Ensures contract possible i (q.bind fun _ => .done result) post) start s := by
  induction p generalizing start s with
  | done result => rfl
  | call act next ih =>
      cases act with
      | read | write => exact ih _
      | wait request =>
          exact and_congr_right fun _ => forall₂_congr fun s' answer =>
            forall₃_congr fun _ _ _ => ih answer

@[simp] theorem ensures_throw {e : ε} {post : Except ε α → Site σ Req → Site σ Req → Prop} :
    Ensures contract possible i (Program.throw e : Handler σ Req Ans ε α) post start s ↔
      post (.error e) start s := Iff.rfl

@[simp] theorem ensures_read_bind {f : σ → Handler σ Req Ans ε α}
    {post : Except ε α → Site σ Req → Site σ Req → Prop} :
    Ensures contract possible i (read >>= f) post start s ↔
      Ensures contract possible i (f s.state) post start s := Iff.rfl

@[simp] theorem ensures_modify {f : σ → σ}
    {post : Except ε Unit → Site σ Req → Site σ Req → Prop} :
    Ensures contract possible i (modify f : Handler σ Req Ans ε Unit) post start s ↔
      post (.ok ()) start { s with state := f s.state } := Iff.rfl

@[simp] theorem ensures_modify_bind {f : σ → σ} {g : Unit → Handler σ Req Ans ε α}
    {post : Except ε α → Site σ Req → Site σ Req → Prop} :
    Ensures contract possible i (modify f >>= g) post start s ↔
      Ensures contract possible i (g ()) post start { s with state := f s.state } := Iff.rfl

end Ensures

end Handler

/-! ## The loop -/

structure EventLoop (ι σ Req : Type) (Ans : Req → Type) (ε α : Type) where
  site : Site σ Req
  handlers : ι → Option (Handler σ Req Ans ε α)

/-- The handlers of the events, and the answers that may come. -/
structure LoopRules (ι σ Req : Type) (Ans : Req → Type) (ε α : Type) where
  handler : ι → Handler σ Req Ans ε α
  possible : Site σ Req → (request : Req) → Ans request → Prop

namespace EventLoop

variable {ι σ Req : Type} {Ans : Req → Type} {ε α : Type}

/-- The loop before any event. -/
def initial (state : σ) : EventLoop ι σ Req Ans ε α where
  site := { state, sent := [] }
  handlers _ := none

variable [DecidableEq ι]

/-- The handler `i` goes on with `p` until it waits. -/
def goOn (loop : EventLoop ι σ Req Ans ε α) (i : ι) (p : Handler σ Req Ans ε α) :
    EventLoop ι σ Req Ans ε α where
  site := (Handler.settle p loop.site).1
  handlers := Function.update loop.handlers i (some (Handler.settle p loop.site).2)

variable (rules : LoopRules ι σ Req Ans ε α)

inductive Step : EventLoop ι σ Req Ans ε α → EventLoop ι σ Req Ans ε α → Prop
  | event {loop : EventLoop ι σ Req Ans ε α} {i : ι} : loop.handlers i = none →
      Step loop (loop.goOn i (rules.handler i))
  | answer {loop : EventLoop ι σ Req Ans ε α} {i : ι} {request : Req}
      {next : Ans request → Handler σ Req Ans ε α} {answer : Ans request} :
      loop.handlers i = some (.call (.wait request) next) →
      rules.possible loop.site request answer → Step loop (loop.goOn i (next answer))

/-- The loops that are reached from the state `state`. -/
inductive Run (state : σ) : EventLoop ι σ Req Ans ε α → Prop
  | initial : Run state (.initial state)
  | step {loop loop' : EventLoop ι σ Req Ans ε α} :
      Run state loop → Step rules loop loop' → Run state loop'

/-- The handlers keep the contract, from every state in which the invariant holds. -/
def Keeps (contract : Contract ι σ Req) : Prop :=
  ∀ i s, contract.inv s → Handler.Ensures contract rules.possible i (rules.handler i)
    (fun _ start s => contract.Guarantees i start s) s s

/-- What is left of a handler keeps the contract when it goes on. -/
def Ready (contract : Contract ι σ Req) (loop : EventLoop ι σ Req Ans ε α) (i : ι) :
    Handler σ Req Ans ε α → Prop
  | .call (.wait request) next => ∀ s answer, contract.rely i loop.site s → contract.inv s →
      rules.possible s request answer → Handler.Ensures contract rules.possible i (next answer)
        (fun _ start s => contract.Guarantees i start s) s s
  | _ => True

variable {rules} {state : σ} {loop loop' : EventLoop ι σ Req Ans ε α}
variable {contract : Contract ι σ Req}

omit [DecidableEq ι] in
/-- The block up to the next wait keeps the contract, and so does what is left. -/
theorem ensures_settle {i : ι} {p : Handler σ Req Ans ε α} {start s : Site σ Req}
    (h : Handler.Ensures contract rules.possible i p
      (fun _ start s => contract.Guarantees i start s) start s) :
    contract.Guarantees i start (Handler.settle p s).1 ∧
      ∀ loop : EventLoop ι σ Req Ans ε α, loop.site = (Handler.settle p s).1 →
        loop.Ready rules contract i (Handler.settle p s).2 := by
  induction p generalizing s with
  | done result => exact ⟨h, fun _ _ => trivial⟩
  | call act next ih =>
      cases act with
      | read | write => exact ih _ h
      | wait request =>
          refine ⟨h.1, fun loop hsite s' answer hrely => ?_⟩
          rw [hsite] at hrely
          exact h.2 s' answer hrely

@[simp] theorem handlers_goOn_self {i : ι} {p : Handler σ Req Ans ε α} :
    (loop.goOn i p).handlers i = some (Handler.settle p loop.site).2 :=
  Function.update_self ..

theorem handlers_goOn_of_ne {i j : ι} (hij : j ≠ i) {p : Handler σ Req Ans ε α} :
    (loop.goOn i p).handlers j = loop.handlers j :=
  Function.update_of_ne hij ..

omit [DecidableEq ι] in
/-- A handler that waits stays ready while another one goes on. -/
theorem Ready.mono {i : ι} {p : Handler σ Req Ans ε α} (h : loop.Ready rules contract i p)
    (hrely : contract.rely i loop.site loop'.site) : loop'.Ready rules contract i p := by
  cases p with
  | done => trivial
  | call act next =>
      cases act with
      | read | write => trivial
      | wait request =>
          exact fun s answer hlater => h s answer (contract.trans i _ _ _ hrely hlater)

/-- One step of the loop: a handler that keeps the contract goes on. -/
theorem goOn_kept {i : ι} {p : Handler σ Req Ans ε α}
    (hready : ∀ j q, loop.handlers j = some q → loop.Ready rules contract j q)
    (h : Handler.Ensures contract rules.possible i p
      (fun _ start s => contract.Guarantees i start s) loop.site loop.site) :
    contract.Guarantees i loop.site (loop.goOn i p).site ∧
      ∀ j q, (loop.goOn i p).handlers j = some q → (loop.goOn i p).Ready rules contract j q := by
  obtain ⟨hguarantees, hself⟩ := ensures_settle h
  refine ⟨hguarantees, fun j q hj => ?_⟩
  by_cases hij : j = i
  · subst hij
    rw [handlers_goOn_self] at hj
    cases hj
    exact hself _ rfl
  · rw [handlers_goOn_of_ne hij] at hj
    exact (hready j q hj).mono (hguarantees.others j hij)

/-- In every reachable loop the invariant holds, and what waits is ready to go on. -/
theorem Run.kept (hkeeps : Keeps rules contract) (h : Run rules state loop)
    (hinitial : contract.inv { state, sent := [] }) :
    contract.inv loop.site ∧
      ∀ i p, loop.handlers i = some p → loop.Ready rules contract i p := by
  induction h with
  | initial => exact ⟨hinitial, fun i p hp => absurd hp (by simp [EventLoop.initial])⟩
  | step _ hstep ih =>
      obtain ⟨hinv, hready⟩ := ih
      cases hstep with
      | event =>
          obtain ⟨hguarantees, hready'⟩ := goOn_kept hready (hkeeps _ _ hinv)
          exact ⟨hguarantees.inv, hready'⟩
      | answer hwaits hpossible =>
          have hgoes := hready _ _ hwaits _ _ (contract.refl _ _) hinv hpossible
          obtain ⟨hguarantees, hready'⟩ := goOn_kept hready hgoes
          exact ⟨hguarantees.inv, hready'⟩

/-- The invariant holds whenever the loop is idle. -/
theorem Run.inv (hkeeps : Keeps rules contract) (h : Run rules state loop)
    (hinitial : contract.inv { state, sent := [] }) : contract.inv loop.site :=
  (h.kept hkeeps hinitial).1

/-- What a step of a reachable loop does is what some handler may do. -/
theorem Run.guarantees (hkeeps : Keeps rules contract) (h : Run rules state loop)
    (hinitial : contract.inv { state, sent := [] }) (hstep : Step rules loop loop') :
    ∃ i, contract.Guarantees i loop.site loop'.site := by
  obtain ⟨hinv, hready⟩ := h.kept hkeeps hinitial
  cases hstep with
  | event => exact ⟨_, (goOn_kept hready (hkeeps _ _ hinv)).1⟩
  | answer hwaits hpossible =>
      exact ⟨_, (goOn_kept hready (hready _ _ hwaits _ _ (contract.refl _ _) hinv hpossible)).1⟩

/-- A later moment of a run is reached by a run. -/
theorem Run.steps (h : Run rules state loop)
    (hlater : Relation.ReflTransGen (Step rules) loop loop') : Run rules state loop' := by
  induction hlater with
  | refl => exact h
  | tail _ hstep ih => exact .step ih hstep

/-- What each handler keeps from block to block, the loop keeps from moment to moment. -/
theorem Run.later {R : Site σ Req → Site σ Req → Prop} (hkeeps : Keeps rules contract)
    (h : Run rules state loop) (hinitial : contract.inv { state, sent := [] })
    (hrefl : ∀ s, R s s) (htrans : ∀ s s' s'', R s s' → R s' s'' → R s s'')
    (hguarantees : ∀ i s s', contract.inv s → contract.Guarantees i s s' → R s s')
    (hlater : Relation.ReflTransGen (Step rules) loop loop') : R loop.site loop'.site := by
  induction hlater using Relation.ReflTransGen.head_induction_on with
  | refl => exact hrefl _
  | head hstep _ ih =>
      obtain ⟨i, hblock⟩ := h.guarantees hkeeps hinitial hstep
      exact htrans _ _ _ (hguarantees i _ _ (h.inv hkeeps hinitial) hblock) (ih (.step h hstep))

/-! ## Schedules -/

section Schedule

variable (serve : Site σ Req → (request : Req) → Ans request)

/-- What happens next: an event, or the answer to the handler that waits. -/
inductive Action (ι : Type)
  | event (i : ι)
  | answer (i : ι)

variable (rules) in
/-- Where the environment answers by a function, a schedule is a program. -/
def act (loop : EventLoop ι σ Req Ans ε α) : Action ι → EventLoop ι σ Req Ans ε α
  | .event i =>
      match loop.handlers i with
      | none => loop.goOn i (rules.handler i)
      | some _ => loop
  | .answer i =>
      match loop.handlers i with
      | some (.call (.wait request) next) => loop.goOn i (next (serve loop.site request))
      | _ => loop

variable {serve}

theorem act_later (hserve : ∀ s request, rules.possible s request (serve s request))
    (action : Action ι) :
    Relation.ReflTransGen (Step rules) loop (loop.act rules serve action) := by
  unfold EventLoop.act
  split
  · split
    case h_1 hnone => exact .single (.event hnone)
    case h_2 => exact .refl
  · split
    case h_1 hwaits => exact .single (.answer hwaits (hserve _ _))
    case h_2 => exact .refl

/-- What a schedule leads to. -/
theorem schedule_later (hserve : ∀ s request, rules.possible s request (serve s request))
    (actions : List (Action ι)) :
    Relation.ReflTransGen (Step rules) loop (actions.foldl (EventLoop.act rules serve) loop) := by
  induction actions generalizing loop with
  | nil => exact .refl
  | cons action actions ih => exact (act_later hserve action).trans ih

end Schedule

end EventLoop
