import ReceiptReview.Client.Updates

/-!
# Requests under the contract of the page

What `api` ensures: a response that a handler goes on with belongs to the session in which
it was asked for, and that session has not ended.
-/

namespace ReceiptReview.ReceiptApp

open Java Handler

namespace Page

variable {ι : Type}

abbrev Guarantees (genuine : Genuine) (uuid : ℕ → JString) (me : ι)
    (start s : Site (Page ι) (PageRequest ι)) : Prop :=
  (pageContract ι genuine uuid).Guarantees me start s

abbrev Ensures (genuine : Genuine) (uuid : ℕ → JString) (me : ι) {α : Type}
    (p : PageHandler ι α)
    (post : Except PageError α → Site (Page ι) (PageRequest ι) → Site (Page ι) (PageRequest ι) →
      Prop) (start s : Site (Page ι) (PageRequest ι)) : Prop :=
  Handler.Ensures (pageContract ι genuine uuid) (PageRequest.Possible genuine) me p post start s

variable {genuine : Genuine} {uuid : ℕ → JString} {me : ι}
variable {start s : Site (Page ι) (PageRequest ι)} {page page' page'' : Page ι}

theorem Backed.mono {n : ℕ} {request : ApiRequest} (h : Backed genuine n page request)
    (hkeys : page.ghost.keys ⊆ page'.ghost.keys) : Backed genuine n page' request := by
  cases request with
  | upload => exact hkeys h
  | _ => exact h

/-- A block goes on by an update of the page. -/
theorem Guarantees.update (h : Guarantees genuine uuid me start s)
    (hsound : page'.Sound genuine uuid) (hmoves : s.state.Moves me page') :
    Guarantees genuine uuid me start { s with state := page' } :=
  Contract.Guarantees.further h
    ⟨hsound, fun controller request token hmem =>
      (h.inv.2 controller request token hmem).mono hmoves.keys⟩
    hmoves.apart

/-- A block ends with a request that the page has reason to make. -/
theorem Guarantees.send (h : Guarantees genuine uuid me start s) {request : PageRequest ι}
    (hbacked : ∀ controller apiRequest token, request = .fetch controller apiRequest token →
      Backed genuine controller.session s.state apiRequest) :
    Guarantees genuine uuid me start { s with sent := request :: s.sent } :=
  Contract.Guarantees.further h
    ⟨h.inv.1, fun controller apiRequest token hmem => by
      rcases List.mem_cons.mp hmem with heq | hmem
      · exact hbacked controller apiRequest token heq.symm
      · exact h.inv.2 controller apiRequest token hmem⟩
    fun j _ => .refl j _

theorem ensures_await {request : PageRequest ι}
    {post : Except PageError request.Result → Site (Page ι) (PageRequest ι) →
      Site (Page ι) (PageRequest ι) → Prop}
    (hsend : Guarantees genuine uuid me start { s with sent := request :: s.sent })
    (hanswer : ∀ s' answer, s.state.Apart me s'.state → Guarantees genuine uuid me s' s' →
      PageRequest.Possible genuine s' request answer → post answer s' s') :
    Ensures genuine uuid me (await request) post start s := by
  refine ⟨hsend, fun s' answer hrely hinv hpossible => ?_⟩
  have hpost := hanswer s' answer hrely ⟨hinv, fun j _ => .refl j _⟩ hpossible
  cases answer with
  | ok result => exact hpost
  | error e => exact hpost

/-! ## The exchange -/

/-- The handler has begun the exchange at `page`, and the others have run since. -/
structure Exchanging (controller : Controller ι) (page page' : Page ι) : Prop where
  onward : page.Onward controller.handler page'
  pending : controller ∈ page'.requests
  ended : page.ghost.session < page'.ghost.session → controller ∈ page'.aborted

theorem Exchanging.wait {controller : Controller ι} (h : Exchanging controller page page')
    (h' : page'.Apart controller.handler page'') : Exchanging controller page page'' where
  onward := h.onward.trans h'.toOnward
  pending := h'.requests controller h.pending rfl
  ended hlt := by
    rcases h.onward.session.lt_or_eq with hended | hsame
    · exact h'.aborted (h.ended hended)
    · exact h'.ended (lt_of_eq_of_lt hsame.symm hlt) controller h.pending rfl

/-- What the handler knows when the exchange is over. -/
structure Answered (genuine : Genuine) (uuid : ℕ → JString) (me : ι) (page : Page ι)
    (request : ApiRequest) (result : Except PageError request.Result)
    (start s : Site (Page ι) (PageRequest ι)) : Prop where
  guarantees : Guarantees genuine uuid me start s
  onward : page.Onward me s.state
  response : ∀ response, result = .ok response →
    s.state.ghost.session = page.ghost.session ∧ genuine page.ghost.session request response

theorem Answered.error {request : ApiRequest} {e : PageError}
    (h : Guarantees genuine uuid me start s) (honward : page.Onward me s.state) :
    Answered genuine uuid me page request (.error e) start s where
  guarantees := h
  onward := honward
  response _ hok := by cases hok

variable {controller : Controller ι} {request : ApiRequest}

theorem ensures_csrfToken (hmine : controller.handler = me)
    (hexchanging : Exchanging controller page s.state) (h : Guarantees genuine uuid me start s) :
    Ensures genuine uuid me (csrfToken controller request)
      (fun _ start s => Guarantees genuine uuid me start s ∧ Exchanging controller page s.state)
      start s := by
  subst hmine
  unfold csrfToken
  split
  · exact ⟨h, hexchanging⟩
  · refine ensures_bind.mpr (ensures_await (h.send (by rintro _ _ _ ⟨⟩))
      fun s' answer hapart hguarantees _ => ?_)
    have hstill := And.intro hguarantees (hexchanging.wait hapart)
    match answer with
    | .error _ => exact hstill
    | .ok none => exact hstill
    | .ok (some _) => exact hstill

/-- A body that has come was not aborted, so that the session has not ended. -/
theorem ensures_body (hmine : controller.handler = me)
    (hsession : controller.session = page.ghost.session)
    (hexchanging : Exchanging controller page s.state) (h : Guarantees genuine uuid me start s) :
    Ensures genuine uuid me (await (.body controller request))
      (Answered genuine uuid me page request) start s := by
  subst hmine
  refine ensures_await (h.send (by rintro _ _ _ ⟨⟩))
    fun s' answer hapart hguarantees hpossible => ?_
  have hstill := hexchanging.wait hapart
  refine ⟨hguarantees, hstill.onward, fun response hok => ?_⟩
  subst hok
  have hlives : controller ∉ s'.state.aborted := fun hmem => by cases hpossible.1 hmem
  have hsame : s'.state.ghost.session = page.ghost.session :=
    (hstill.onward.session.lt_or_eq.resolve_left fun hlt => hlives (hstill.ended hlt)).symm
  exact ⟨hsame, hsession ▸ hpossible.2⟩

theorem ensures_exchange (hmine : controller.handler = me)
    (hsession : controller.session = page.ghost.session)
    (hbacked : Backed genuine page.ghost.session page request)
    (hexchanging : Exchanging controller page s.state) (h : Guarantees genuine uuid me start s) :
    Ensures genuine uuid me (exchange me controller request)
      (Answered genuine uuid me page request) start s := by
  unfold exchange
  refine ensures_bind.mpr (ensures_mono (ensures_csrfToken hmine hexchanging h) ?_)
  rintro (e | token) start₁ s₁ ⟨h₁, hexchanging₁⟩
  case error => exact .error h₁ (hmine ▸ hexchanging₁.onward)
  case ok =>
    refine ensures_bind.mpr (ensures_await (h₁.send ?_) fun s₂ status hapart h₂ _ => ?_)
    · -- the keys have only grown since the request was built
      rintro _ _ _ ⟨⟩
      rw [hsession]
      exact hbacked.mono hexchanging₁.onward.keys
    have hexchanging₂ := hexchanging₁.wait (hmine ▸ hapart)
    cases status with
    | error e => exact .error h₂ (hmine ▸ hexchanging₂.onward)
    | ok status =>
        simp only [thenEnsures]
        split
        · exact ensures_body hmine hsession hexchanging₂ h₂
        · refine ensures_bind.mpr (ensures_await (h₂.send (by rintro _ _ _ ⟨⟩))
            fun s₃ detail hapart h₃ _ => ?_)
          have hexchanging₃ := hexchanging₂.wait (hmine ▸ hapart)
          have honward : page.Onward me s₃.state := hmine ▸ hexchanging₃.onward
          cases detail with
          | error e => exact .error h₃ honward
          | ok detail =>
              -- an answer that says who is not logged in ends the session
              simp only [thenEnsures, ensures_modify_bind, ensures_throw]
              split
              · exact .error (h₃.update h₃.inv.1.endSession
                  ⟨fun i _ => apart_endSession i, List.Subset.refl _⟩)
                  (honward.trans (apart_endSession me).toOnward)
              · exact .error h₃ honward

variable [DecidableEq ι]

/-- The request is forgotten when the exchange is over. -/
theorem Answered.removeRequest (hmine : controller.handler = me)
    {result : Except PageError request.Result}
    (h : Answered genuine uuid me page request result start s) :
    Answered genuine uuid me page request result start
      { s with state :=
        { s.state with requests := s.state.requests.filter (· ≠ controller) } } where
  guarantees := h.guarantees.update { h.guarantees.inv.1 with } (moves_removeRequest hmine)
  onward := { h.onward with }
  response := h.response

theorem ensures_apiWith (hmine : controller.handler = me)
    (hsession : controller.session = s.state.ghost.session)
    (hbacked : Backed genuine s.state.ghost.session s.state request)
    (h : Guarantees genuine uuid me start s) :
    Ensures genuine uuid me (apiWith me controller request)
      (Answered genuine uuid me s.state request) start s := by
  have hadded : Guarantees genuine uuid me start
      { s with state := { s.state with requests := controller :: s.state.requests } } :=
    h.update { h.inv.1 with } (moves_addRequest controller)
  have hexchanging : Exchanging controller s.state
      { s.state with requests := controller :: s.state.requests } :=
    { onward := { Core.Onward.refl _ s.state.core with }
      pending := List.mem_cons_self
      ended := fun hlt => absurd hlt (lt_irrefl _) }
  refine ensures_tryFinally.mpr (ensures_tryCatch.mpr (ensures_mono
    (ensures_exchange hmine hsession hbacked hexchanging hadded) ?_))
  rintro (e | response) start₁ s₁ hanswered
  case ok => exact hanswered.removeRequest hmine
  case error =>
    have herror : Answered genuine uuid me s.state request (.error e.ofExchange) start₁ s₁ :=
      .error hanswered.guarantees hanswered.onward
    exact herror.removeRequest hmine

/-- What the caller of `api` may rely on. -/
theorem ensures_api (hbacked : Backed genuine s.state.ghost.session s.state request)
    (h : Guarantees genuine uuid me start s) :
    Ensures genuine uuid me (api me request) (Answered genuine uuid me s.state request)
      start s := by
  have hcounted : Guarantees genuine uuid me start
      { s with state := { s.state with controllers := s.state.controllers + 1 } } :=
    h.update { h.inv.1 with } (moves_of_core rfl)
  refine ensures_mono (ensures_apiWith rfl rfl (hbacked.mono (List.Subset.refl _)) hcounted)
    fun result start s hanswered => ?_
  exact { hanswered with onward := hanswered.onward }

end Page

end ReceiptReview.ReceiptApp
