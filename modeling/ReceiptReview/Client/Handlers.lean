import ReceiptReview.Client.Exchange

/-!
# The handlers keep the contract of the page

One theorem for each handler, and from them that every run of the page keeps the contract.
-/

namespace ReceiptReview.ReceiptApp

open Java Handler

/-- The server answers a request for a receipt with that receipt. -/
structure Genuine.Identified (genuine : Genuine) : Prop where
  receipt : ∀ n id response, genuine n (.receipt id) response → response.id = id
  correctFields : ∀ n id version corrections response,
    genuine n (.correctFields id version corrections) response → response.id = id
  decide : ∀ n id version decision note response,
    genuine n (.decide id version decision note) response → response.id = id

namespace Page

variable {ι : Type} {genuine : Genuine} {uuid : ℕ → JString} {me : ι}
variable {start s : Site (Page ι) (PageRequest ι)}

/-- The handler ends with what the others may rely on. -/
abbrev Keeps (genuine : Genuine) (uuid : ℕ → JString) (me : ι) (p : PageHandler ι Unit)
    (start s : Site (Page ι) (PageRequest ι)) : Prop :=
  Ensures genuine uuid me p (fun _ start s => Guarantees genuine uuid me start s) start s

/-- A block goes on by a message. -/
theorem Guarantees.notify (h : Guarantees genuine uuid me start s) (message : JString)
    (error : Bool) :
    Guarantees genuine uuid me start { s with state := s.state.notify message error } :=
  h.update (h.inv.1.notify message error) (moves_of_core (core_notify message error))

theorem keeps_notifyErrors {p : PageHandler ι Unit} (h : Keeps genuine uuid me p start s) :
    Keeps genuine uuid me (notifyErrors p) start s := by
  refine ensures_tryCatch.mpr (ensures_mono h ?_)
  rintro (e | _) start₁ s₁ h₁
  case ok => exact h₁
  case error =>
    cases e with
    | abort => exact h₁
    | typeError => exact h₁.notify _ _
    | failed message status => exact h₁.notify _ _

/-- A block goes on by disabling or enabling a button. -/
theorem Guarantees.setDisabled (h : Guarantees genuine uuid me start s) (button : Button)
    (disabled : Bool) :
    Guarantees genuine uuid me start
      { s with state := s.state.setDisabled button disabled } :=
  h.update { h.inv.1 with } (moves_of_core rfl)

theorem keeps_run {button : Button} {p : PageHandler ι Unit}
    (h : Guarantees genuine uuid me start s)
    (hp : ∀ s', Guarantees genuine uuid me start s' → Keeps genuine uuid me p start s') :
    Keeps genuine uuid me (run (some button) p) start s := by
  unfold run
  simp only [ensures_modify_bind]
  refine ensures_tryFinally.mpr (ensures_mono
    (keeps_notifyErrors (hp _ (h.setDisabled button true))) ?_)
  exact fun _ start₁ s₁ h₁ => h₁.setDisabled button false

/-- A handler goes on after a part of it. -/
theorem keeps_bind {p : PageHandler ι Unit} {f : Unit → PageHandler ι Unit}
    (h : Keeps genuine uuid me p start s)
    (hf : ∀ start₁ s₁, Guarantees genuine uuid me start₁ s₁ →
      Keeps genuine uuid me (f ()) start₁ s₁) :
    Keeps genuine uuid me (p >>= f) start s := by
  refine ensures_bind.mpr (ensures_mono h ?_)
  rintro (e | _) start₁ s₁ h₁
  case error => exact h₁
  case ok => exact hf start₁ s₁ h₁

/-- A block goes on by asking for a page of the list. -/
theorem Guarantees.takeList (h : Guarantees genuine uuid me start s) (number : ℕ) :
    Guarantees genuine uuid me start
      { s with state := ({ s.state with page := number } : Page ι).takeList me } :=
  h.update (h.inv.1.takeList number)
    ⟨fun i _ => apart_takeList i s.state.view number, List.Subset.refl _⟩

variable [DecidableEq ι]

/-- A handler ends where its request fails, and goes on with what the server has answered. -/
theorem keeps_api {request : ApiRequest} {f : request.Result → PageHandler ι Unit}
    (hbacked : Backed genuine s.state.ghost.session s.state request)
    (h : Guarantees genuine uuid me start s)
    (hf : ∀ answer start₁ s₁, Answered genuine uuid me s.state request (.ok answer) start₁ s₁ →
      Keeps genuine uuid me (f answer) start₁ s₁) :
    Keeps genuine uuid me (api me request >>= f) start s := by
  refine ensures_bind.mpr (ensures_mono (ensures_api hbacked h) ?_)
  rintro (e | answer) start₁ s₁ h₁
  case error => exact h₁.guarantees
  case ok => exact hf answer start₁ s₁ h₁

/-! ## The list -/

/-- The list that was asked for is shown, or it comes too late. -/
theorem keeps_loadReceipts {background : Bool}
    (hrows : s.state.ghost.rowsRequest ≤ s.state.listRequest)
    (h : Guarantees genuine uuid me start { s with state := s.state.takeList me }) :
    Keeps genuine uuid me (loadReceipts me background) start s := by
  unfold loadReceipts
  simp only [ensures_modify_bind, ensures_read_bind]
  split
  · exact h
  simp only [ensures_modify_bind]
  set label := if background then (s.state.takeList me).pageLabel else .loading
  let waiting : Page ι :=
    { s.state.takeList me with previousDisabled := true, nextDisabled := true, pageLabel := label }
  -- the rows are older than the request, so nothing is claimed of them
  have hlater : waiting.ghost.rowsRequest ≠ waiting.listRequest :=
    Nat.ne_of_lt (Nat.lt_succ_of_le hrows)
  have hwaiting : Guarantees genuine uuid me start { s with state := waiting } :=
    h.update { h.inv.1 with listed := fun heq => absurd heq hlater } (moves_of_core rfl)
  refine ensures_bind.mpr (ensures_tryCatch.mpr (ensures_mono
    (ensures_api (by trivial) hwaiting) ?_))
  rintro (e | results) start₁ s₁ h₁
  case error =>
    simp only [elseEnsures, ensures_modify_bind, ensures_throw, thenEnsures]
    split
    case isTrue hcurrent =>
      -- the error is reported only while the request is the last one
      have hsame := h₁.onward.rows hcurrent.symm rfl
      have hlater₁ : s₁.state.ghost.rowsRequest ≠ s₁.state.listRequest := fun heq =>
        hlater (hsame.symm.trans (heq.trans hcurrent.symm))
      exact h₁.guarantees.update
        { h₁.guarantees.inv.1 with listed := fun heq => absurd heq hlater₁ } (moves_of_core rfl)
    case isFalse => exact h₁.guarantees
  case ok =>
    obtain ⟨hsession, hgenuine⟩ := h₁.response results rfl
    have hsound := h₁.guarantees.inv.1
    exact h₁.guarantees.update
      (hsound.showReceipts (hsession ▸ hgenuine) fun heq => h₁.onward.selected heq)
      (moves_showReceipts hsound (fun heq => h₁.onward.listTaker heq) results)

theorem keeps_changeView {view : View}
    (h : Guarantees genuine uuid me start { s with state := s.state.switchView me view }) :
    Keeps genuine uuid me (changeView me view) start s := by
  unfold changeView
  simp only [ensures_modify_bind]
  split
  · exact keeps_loadReceipts h.inv.1.rowsRequest (h.takeList _)
  · exact h

theorem keeps_enterWorkspace {employee : EmployeeResponse}
    (hme : genuine s.state.ghost.session .me employee)
    (h : Guarantees genuine uuid me start s) :
    Keeps genuine uuid me (enterWorkspace me employee) start s :=
  keeps_changeView (h.update (h.inv.1.enterWorkspace hme none .mine)
    ⟨fun i _ => apart_switchView i .mine, List.Subset.refl _⟩)

/-- The page is entered by the employee that the server names. -/
theorem keeps_enterAsMe (h : Guarantees genuine uuid me start s) :
    Keeps genuine uuid me (do enterWorkspace me (← api me .me)) start s := by
  refine keeps_api (by trivial) h fun employee start₁ s₁ h₁ => ?_
  obtain ⟨hsession, hgenuine⟩ := h₁.response employee rfl
  exact keeps_enterWorkspace (hsession ▸ hgenuine) h₁.guarantees

/-! ## The receipt that is open -/

omit [DecidableEq ι] in
theorem keeps_renderDetail {receipt : ReceiptResponse} (hemployee : s.state.employee ≠ none)
    (h : Guarantees genuine uuid me start
      { s with state := { s.state with detail := some receipt } }) :
    Keeps genuine uuid me (renderDetail receipt) start s := by
  unfold renderDetail
  simp only [ensures_modify_bind, ensures_read_bind]
  split
  case h_1 => exact h.update { h.inv.1 with } (moves_of_core rfl)
  case h_2 he => exact absurd he hemployee

/-- No receipt is opened but the one that was asked for last. -/
theorem keeps_openDetail (hidentified : genuine.Identified) {id : Long}
    (h : Guarantees genuine uuid me start s) :
    Keeps genuine uuid me (openDetail me id) start s := by
  unfold openDetail
  simp only [ensures_modify_bind, ensures_read_bind]
  have hclosed : Guarantees genuine uuid me start
      { s with state := { s.state.closeDetail me with detailNotice := none }.takeDetail me } :=
    h.update { h.inv.1.closeDetail with }
      { apart := fun i _ => (apart_closeDetail i).trans (apart_takeDetail i)
        keys := List.Subset.refl _ }
  refine keeps_api (by trivial) hclosed fun receipt start₁ s₁ h₁ => ?_
  simp only [ensures_read_bind]
  split
  case isTrue => exact h₁.guarantees
  case isFalse hcurrent =>
    rw [not_or, not_not] at hcurrent
    obtain ⟨hemployee, hcurrent⟩ := hcurrent
    have hemployee : s₁.state.employee ≠ none := by simpa using hemployee
    have htaker : s₁.state.ghost.detailTaker = some me := h₁.onward.detailTaker hcurrent.symm
    have hdetail : s₁.state.detail = none :=
      Option.map_eq_none_iff.mp (h₁.onward.detail hcurrent.symm rfl)
    obtain ⟨hsession, hgenuine⟩ := h₁.response receipt rfl
    have hid : receipt.id = id := hidentified.receipt _ _ _ hgenuine
    have hreturned : Returned genuine s₁.state.ghost.session receipt :=
      .got (by rw [hsession, hid]; exact hgenuine)
    have hopened := h₁.guarantees.update
      (h₁.guarantees.inv.1.openDetail hreturned hemployee hdetail)
      ⟨fun i hi => apart_openDetail htaker hi, List.Subset.refl _⟩
    exact keeps_bind (keeps_renderDetail hemployee hopened) fun start₂ s₂ h₂ =>
      h₂.update { h₂.inv.1 with } (moves_of_core rfl)

omit [DecidableEq ι] in
/-- The receipt that is open is shown as the server has returned it. -/
theorem keeps_renderAgain {receipt shown : ReceiptResponse}
    (hreturned : Returned genuine s.state.ghost.session receipt)
    (hshown : s.state.detail = some shown) (hid : shown.id = receipt.id)
    (h : Guarantees genuine uuid me start s) :
    Keeps genuine uuid me (renderDetail receipt) start s := by
  refine keeps_renderDetail (fun he => ?_) (h.update (h.inv.1.renderDetail hreturned hshown hid)
    (moves_of_core (core_renderDetail hshown hid)))
  rw [(h.inv.1.closed he).2.1] at hshown
  cases hshown

/-- The list is loaded again. -/
theorem keeps_reload {background : Bool} (h : Guarantees genuine uuid me start s) :
    Keeps genuine uuid me (loadReceipts me background) start s :=
  keeps_loadReceipts h.inv.1.rowsRequest (h.takeList _)

theorem keeps_refreshDetail (hidentified : genuine.Identified)
    (h : Guarantees genuine uuid me start s) :
    Keeps genuine uuid me (refreshDetail me) start s := by
  unfold refreshDetail
  simp only [ensures_read_bind]
  cases hdetail : s.state.detail with
  | none => exact h
  | some detail =>
      simp only [ensures_modify_bind]
      have htaken : Guarantees genuine uuid me start { s with state := s.state.takeDetail me } :=
        h.update { h.inv.1 with } ⟨fun i _ => apart_takeDetail i, List.Subset.refl _⟩
      refine keeps_api (by trivial) htaken fun receipt start₁ s₁ h₁ => ?_
      simp only [ensures_read_bind]
      split
      case isTrue => exact h₁.guarantees
      case isFalse hcurrent =>
        -- the same receipt is still open, under the same request
        rw [not_or, not_not] at hcurrent
        have hsame : s₁.state.detail.map (·.id) = s.state.detail.map (·.id) :=
          h₁.onward.detail hcurrent.2.symm rfl
        obtain ⟨hsession, hgenuine⟩ := h₁.response receipt rfl
        have hid : receipt.id = detail.id := hidentified.receipt _ _ _ hgenuine
        have hreturned : Returned genuine s₁.state.ghost.session receipt :=
          .got (by rw [hsession, hid]; exact hgenuine)
        cases hshown : s₁.state.detail with
        | none => exact h₁.guarantees
        | some shown =>
            rw [hshown, hdetail, Option.map_some, Option.map_some, Option.some.injEq] at hsame
            refine keeps_bind (keeps_renderAgain hreturned hshown (hsame.trans hid.symm)
              h₁.guarantees) fun start₂ s₂ h₂ => ?_
            split
            · exact keeps_reload h₂
            · exact h₂

/-- The history is shown with the receipt that it was asked for. -/
theorem keeps_loadAudit (h : Guarantees genuine uuid me start s) :
    Keeps genuine uuid me (loadAudit me) start s := by
  unfold loadAudit
  simp only [ensures_read_bind]
  cases hdetail : s.state.detail with
  | none => exact h
  | some detail =>
      have hbacked : Backed genuine s.state.ghost.session s.state (.auditEvents detail.id) :=
        ⟨detail, h.inv.1.detail detail hdetail, rfl⟩
      refine keeps_api hbacked h fun events start₁ s₁ h₁ => ?_
      simp only [ensures_modify]
      split
      case isTrue => exact h₁.guarantees
      case isFalse hsame =>
        rw [not_not, Option.map_eq_some_iff] at hsame
        obtain ⟨shown, hshown, hid⟩ := hsame
        obtain ⟨hsession, hgenuine⟩ := h₁.response events rfl
        exact h₁.guarantees.update
          (h₁.guarantees.inv.1.showAudit hshown (by rw [hsession, hid]; exact hgenuine))
          (moves_of_core rfl)

omit [DecidableEq ι] in
/-- Only the end of the session is told of an image that does not come. -/
theorem keeps_imageError {e : PageError} (h : Guarantees genuine uuid me start s) :
    Keeps genuine uuid me (imageError e) start s := by
  unfold imageError
  split
  · exact h.notify _ _
  · exact h

/-- An image is shown with the receipt that it belongs to. -/
theorem keeps_toggleOriginalImage (h : Guarantees genuine uuid me start s) :
    Keeps genuine uuid me (toggleOriginalImage me) start s := by
  unfold toggleOriginalImage
  simp only [ensures_read_bind]
  cases hdetail : s.state.detail with
  | none => exact h
  | some receipt =>
      simp only
      -- a panel that is open is closed, without a request
      split
      case isTrue =>
        exact h.update h.inv.1.clearOriginalImage
          ⟨fun i _ => apart_clearOriginalImage i, List.Subset.refl _⟩
      case isFalse =>
        let controller : Controller ι :=
          { handler := me, number := s.state.controllers, session := s.state.ghost.session }
        let loading : Page ι :=
          { s.state with
            controllers := s.state.controllers + 1
            originalImageRequest := some controller
            originalImagePanel := true }
        have hbacked : Backed genuine s.state.ghost.session loading (.image receipt.id) :=
          ⟨receipt, h.inv.1.detail receipt hdetail, rfl⟩
        have hloading : Guarantees genuine uuid me start { s with state := loading } :=
          h.update { h.inv.1 with } (moves_of_core rfl)
        show Ensures genuine uuid me (Program.tryCatch (apiWith me controller _ >>= _) _) _ start
          { s with state := loading }
        refine ensures_tryCatch.mpr (ensures_bind.mpr (ensures_mono
          (ensures_apiWith rfl rfl hbacked hloading) ?_))
        rintro (e | blob) start₁ s₁ h₁
        case error => exact keeps_imageError h₁.guarantees
        case ok =>
          simp only [thenEnsures, ensures_read_bind]
          -- the answer counts only while its request is the current one
          split
          case isFalse => exact h₁.guarantees
          case isTrue hcurrent =>
            split
            case isFalse => exact h₁.guarantees
            case isTrue =>
              simp only [Page.isCurrent, Bool.and_eq_true, decide_eq_true_eq,
                Option.map_eq_some_iff] at hcurrent
              obtain ⟨⟨_, shown, hshown, hid⟩, _⟩ := hcurrent
              obtain ⟨hsession, hgenuine⟩ := h₁.response blob rfl
              exact h₁.guarantees.update
                (h₁.guarantees.inv.1.showImage hshown (by rw [hsession, hid]; exact hgenuine))
                (moves_of_core rfl)

/-! ## Commands -/

theorem keeps_showUpdated {receipt updated : ReceiptResponse} {message : JString}
    (hreturned : Returned genuine s.state.ghost.session updated) (hid : updated.id = receipt.id)
    (h : Guarantees genuine uuid me start s) :
    Keeps genuine uuid me (showUpdated me receipt updated message) start s := by
  unfold showUpdated
  simp only [ensures_read_bind]
  split
  case isTrue => exact h
  case isFalse hsame =>
    rw [not_not, Option.map_eq_some_iff] at hsame
    obtain ⟨shown, hshown, hshownId⟩ := hsame
    refine keeps_bind (keeps_renderAgain hreturned hshown (hshownId.trans hid.symm) h)
      fun start₁ s₁ h₁ => ?_
    simp only [ensures_modify_bind]
    exact keeps_bind (keeps_reload (h₁.notify message false)) fun start₂ s₂ h₂ =>
      keeps_loadAudit h₂

/-- A correction names the receipt and the version that the server has returned. -/
theorem keeps_correct (hidentified : genuine.Identified) {corrections : FieldCorrections}
    (h : Guarantees genuine uuid me start s) :
    Keeps genuine uuid me (correct me corrections) start s := by
  unfold correct
  simp only [ensures_read_bind]
  cases hdetail : s.state.detail with
  | none => exact h
  | some receipt =>
      have hbacked : Backed genuine s.state.ghost.session s.state
          (.correctFields receipt.id receipt.version corrections) :=
        ⟨receipt, h.inv.1.detail receipt hdetail, rfl, rfl⟩
      refine keeps_api hbacked h fun updated start₁ s₁ h₁ => ?_
      obtain ⟨hsession, hgenuine⟩ := h₁.response updated rfl
      have hid := hidentified.correctFields _ _ _ _ _ hgenuine
      exact keeps_showUpdated (.corrected (by rw [hsession, hid]; exact hgenuine)) hid h₁.guarantees

/-- A decision names the receipt and the version that the server has returned. -/
theorem keeps_decideReceipt (hidentified : genuine.Identified) {decision : ReviewDecision}
    {note : JString} (h : Guarantees genuine uuid me start s) :
    Keeps genuine uuid me (decideReceipt me decision note) start s := by
  unfold decideReceipt
  simp only [ensures_read_bind]
  cases hdetail : s.state.detail with
  | none => exact h
  | some receipt =>
      have hbacked : Backed genuine s.state.ghost.session s.state
          (.decide receipt.id receipt.version decision note) :=
        ⟨receipt, h.inv.1.detail receipt hdetail, rfl, rfl⟩
      refine keeps_api hbacked h fun updated start₁ s₁ h₁ => ?_
      obtain ⟨hsession, hgenuine⟩ := h₁.response updated rfl
      have hid := hidentified.decide _ _ _ _ _ _ hgenuine
      exact keeps_showUpdated (.decided (by rw [hsession, hid]; exact hgenuine)) hid h₁.guarantees

/-! ## Accounts -/

omit [DecidableEq ι] in
/-- The tokens that were shown go before another one is asked for. -/
theorem Guarantees.clearIssuedToken (h : Guarantees genuine uuid me start s) :
    Guarantees genuine uuid me start { s with state := s.state.clearIssuedToken } :=
  h.update h.inv.1.clearIssuedToken (moves_of_core rfl)

omit [DecidableEq ι] in
/-- A token is shown to the administrator who has asked for it, or it comes too late. -/
theorem Guarantees.showTokens (h : Guarantees genuine uuid me start s) {requestId : ℕ}
    {issued reissued : Option IssuedEmployee} (message : JString)
    (htokens : ∀ token, issued = some token ∨ reissued = some token →
      IssuedBy genuine s.state.ghost.session token) :
    Guarantees genuine uuid me start
      { s with state :=
        if s.state.awaitsToken requestId then
          ({ s.state with issued, reissued } : Page ι).notify message false
        else s.state } := by
  split
  case isFalse => exact h
  case isTrue hawaits =>
    have hshown : Guarantees genuine uuid me start
        { s with state := { s.state with issued, reissued } } :=
      h.update (h.inv.1.showTokens hawaits htokens) (moves_of_core rfl)
    exact hshown.notify message false

theorem keeps_issue {request : IssueEmployeeRequest} (h : Guarantees genuine uuid me start s) :
    Keeps genuine uuid me (issue me request) start s := by
  unfold issue
  simp only [ensures_modify_bind, ensures_read_bind]
  refine keeps_api (by trivial) h.clearIssuedToken fun issued start₁ s₁ h₁ => ?_
  obtain ⟨hsession, hgenuine⟩ := h₁.response issued rfl
  refine h₁.guarantees.showTokens _ fun token htoken => ?_
  rcases htoken with htoken | htoken
  · cases htoken
    exact .issue (hsession ▸ hgenuine)
  · exact (h₁.guarantees.inv.1.tokens token (.inr htoken)).1

theorem keeps_reissue {id : Long} (h : Guarantees genuine uuid me start s) :
    Keeps genuine uuid me (reissue me id) start s := by
  unfold reissue
  simp only [ensures_modify_bind, ensures_read_bind]
  refine keeps_api (by trivial) h.clearIssuedToken fun issued start₁ s₁ h₁ => ?_
  obtain ⟨hsession, hgenuine⟩ := h₁.response issued rfl
  refine h₁.guarantees.showTokens _ fun token htoken => ?_
  rcases htoken with htoken | htoken
  · exact (h₁.guarantees.inv.1.tokens token (.inl htoken)).1
  · cases htoken
    exact .reissue (hsession ▸ hgenuine)

theorem keeps_setActive {id : Long} {active : Bool} (h : Guarantees genuine uuid me start s) :
    Keeps genuine uuid me (setActive me id active) start s := by
  refine keeps_api (by trivial) h fun employee start₁ s₁ h₁ => ?_
  exact h₁.guarantees.notify _ _

theorem keeps_login {request : LoginRequest} (h : Guarantees genuine uuid me start s) :
    Keeps genuine uuid me (login me request) start s := by
  refine keeps_api (by trivial) h fun _ start₁ s₁ h₁ => ?_
  exact keeps_enterAsMe h₁.guarantees

theorem keeps_setPassword {request : SetPasswordRequest} {confirmPassword : JString}
    (h : Guarantees genuine uuid me start s) :
    Keeps genuine uuid me (setPassword me request confirmPassword) start s := by
  unfold setPassword
  split
  · exact h
  split
  · exact h
  refine keeps_api (by trivial) h fun _ start₁ s₁ h₁ => ?_
  exact h₁.guarantees.notify _ _

theorem keeps_logout (h : Guarantees genuine uuid me start s) :
    Keeps genuine uuid me (logout me) start s := by
  refine keeps_api (by trivial) h fun _ start₁ s₁ h₁ => ?_
  have hended : Guarantees genuine uuid me start₁ { s₁ with state := s₁.state.endSession me } :=
    h₁.guarantees.update h₁.guarantees.inv.1.endSession
      ⟨fun i _ => apart_endSession i, List.Subset.refl _⟩
  exact hended.notify _ _

theorem keeps_initializePage (h : Guarantees genuine uuid me start s) :
    Keeps genuine uuid me (initializePage me) start s := by
  refine ensures_tryCatch.mpr (ensures_mono (keeps_enterAsMe h) ?_)
  rintro (e | _) start₁ s₁ h₁
  case ok => exact h₁
  case error =>
    simp only [elseEnsures]
    split
    · exact h₁
    · exact h₁
    · exact h₁.notify _ _
    · exact h₁.notify _ _

/-! ## Files -/

omit [DecidableEq ι] in
theorem uploadKey_takeKey (page : Page ι) : ∃ key, (page.takeKey uuid).uploadKey = some key := by
  unfold Page.takeKey
  split
  case h_1 key hkey => exact ⟨key, hkey⟩
  case h_2 => exact ⟨_, rfl⟩

omit [DecidableEq ι] in
theorem rowsRequest_notify {page : Page ι} {message : JString} {error : Bool}
    (h : page.ghost.rowsRequest ≤ page.listRequest) :
    (page.notify message error).ghost.rowsRequest ≤ (page.notify message error).listRequest := by
  unfold Page.notify
  split <;> exact h

omit [DecidableEq ι] in
theorem takeList_notify (page : Page ι) (message : JString) (error : Bool) :
    (page.notify message error).takeList me = (page.takeList me).notify message error := by
  unfold Page.notify
  cases hopen : page.dialogOpen with
  | false => simp [hopen, Page.takeList]
  | true => simp [hopen, Page.takeList]

omit [DecidableEq ι] in
/-- The page is made ready for the next file, and the list for the receipt of this one. -/
theorem Guarantees.uploaded (h : Guarantees genuine uuid me start s) (message : JString) :
    Guarantees genuine uuid me start
      { s with state :=
        (({ s.state.clearFile with page := 0, filters := .empty } : Page ι).notify
          message false).takeList me } := by
  have hcleared : Guarantees genuine uuid me start
      { s with state := { s.state.clearFile with filters := .empty } } :=
    h.update { h.inv.1.clearFile with } (moves_of_core rfl)
  rw [takeList_notify]
  exact (hcleared.takeList 0).notify message false

/-- A file is sent with the key that was drawn for it. -/
theorem keeps_upload (hidentified : genuine.Identified) (huuid : Function.Injective uuid)
    (h : Guarantees genuine uuid me start s) :
    Keeps genuine uuid me (upload uuid me) start s := by
  unfold upload
  simp only [ensures_modify_bind, ensures_read_bind]
  have htaken : Guarantees genuine uuid me start { s with state := s.state.takeKey uuid } :=
    h.update (h.inv.1.takeKey huuid) moves_takeKey
  obtain ⟨key, hkey⟩ : ∃ key, (s.state.takeKey uuid).uploadKey = some key :=
    uploadKey_takeKey s.state
  have hbacked : Backed genuine (s.state.takeKey uuid).ghost.session (s.state.takeKey uuid)
      (.upload ((s.state.takeKey uuid).uploadKey.getD []) (s.state.takeKey uuid).receiptFile) := by
    rw [hkey]
    exact htaken.inv.1.uploadKey key hkey
  refine keeps_api hbacked htaken fun accepted start₁ s₁ h₁ => ?_
  simp only [ensures_modify_bind]
  exact keeps_bind (keeps_loadReceipts (rowsRequest_notify h₁.guarantees.inv.1.rowsRequest)
    (h₁.guarantees.uploaded _)) fun start₂ s₂ h₂ => keeps_openDetail hidentified h₂

/-! ## Events -/

theorem keeps_handler (hidentified : genuine.Identified) (huuid : Function.Injective uuid)
    (event : PageEvent) (h : Guarantees genuine uuid me start s) :
    Keeps genuine uuid me (event.handler uuid me) start s := by
  cases event with
  | load => exact keeps_initializePage h
  | login request => exact keeps_run h fun _ h => keeps_login h
  | setPassword request confirmPassword => exact keeps_run h fun _ h => keeps_setPassword h
  | logout => exact keeps_run h fun _ h => keeps_logout h
  | changeView view =>
      exact keeps_notifyErrors (keeps_changeView (h.update (h.inv.1.switchView view)
        ⟨fun i _ => apart_switchView i view, List.Subset.refl _⟩))
  | selectFile file =>
      exact h.update (h.inv.1.selectFile file) (moves_of_core (core_selectFile file))
  | upload => exact keeps_run h fun _ h => keeps_upload hidentified huuid h
  | editFilters filters => exact h.update { h.inv.1 with } (moves_of_core rfl)
  | submitFilters =>
      exact keeps_run h fun _ h => keeps_loadReceipts h.inv.1.rowsRequest (h.takeList 0)
  | refreshList => exact keeps_run h fun _ h => keeps_reload h
  | previousPage =>
      exact keeps_notifyErrors
        (keeps_loadReceipts h.inv.1.rowsRequest (h.takeList (s.state.page - 1)))
  | nextPage =>
      exact keeps_notifyErrors
        (keeps_loadReceipts h.inv.1.rowsRequest (h.takeList (s.state.page + 1)))
  | openDetail id => exact keeps_notifyErrors (keeps_openDetail hidentified h)
  | closeDetail =>
      exact h.update h.inv.1.closeDetail ⟨fun i _ => apart_closeDetail i, List.Subset.refl _⟩
  | refreshDetail => exact keeps_run h fun _ h => keeps_refreshDetail hidentified h
  | toggleOriginalImage => exact keeps_toggleOriginalImage h
  | refreshAudit => exact keeps_run h fun _ h => keeps_loadAudit h
  | correct corrections => exact keeps_run h fun _ h => keeps_correct hidentified h
  | decide decision note => exact keeps_run h fun _ h => keeps_decideReceipt hidentified h
  | issue request => exact keeps_run h fun _ h => keeps_issue h
  | reissue id => exact keeps_run h fun _ h => keeps_reissue h
  | active id isActive => exact keeps_run h fun _ h => keeps_setActive h

/-! ## Runs -/

variable {events : ι → PageEvent} {loop loop' : PageLoop ι}

omit [DecidableEq ι] in
theorem sound_initial : (Page.initial : Page ι).Sound genuine uuid where
  employee _ he := by cases he
  rows := .inl rfl
  rowsRequest := le_rfl
  listed _ hne := absurd rfl hne
  closed _ := ⟨rfl, rfl, rfl, rfl⟩
  detail _ hr := by cases hr
  noDetail _ := ⟨rfl, rfl⟩
  audit _ hr := by cases hr
  image _ _ hr := by cases hr
  tokens _ hissued := by rcases hissued with hissued | hissued <;> cases hissued
  uploadKey _ hkey := by cases hkey
  drawn _ hdrawn := by cases hdrawn
  keys := List.nodup_nil

theorem keeps_rules (hidentified : genuine.Identified) (huuid : Function.Injective uuid) :
    EventLoop.Keeps (pageRules genuine uuid events) (pageContract ι genuine uuid) :=
  fun i _ hinv => keeps_handler hidentified huuid (events i) ⟨hinv, fun j _ => .refl j _⟩

omit [DecidableEq ι] in
theorem inv_initial :
    (pageContract ι genuine uuid).inv { state := Page.initial, sent := [] } :=
  ⟨sound_initial, fun _ _ _ hmem => by cases hmem⟩

end Page

end ReceiptReview.ReceiptApp
