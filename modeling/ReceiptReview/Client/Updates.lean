import ReceiptReview.Client.Contract

/-!
# The parts of the handlers that run at once

What each of them leaves of the contract of the page.
-/

namespace ReceiptReview.ReceiptApp

open Java

namespace Page

variable {ι : Type} {me : ι} {genuine : Genuine} {uuid : ℕ → JString}
variable {page page' : Page ι}

/-- What a handler may do to the page in one block, as the others see it. -/
structure Moves (me : ι) (page page' : Page ι) : Prop where
  apart : ∀ i, i ≠ me → page.Apart i page'
  keys : page.ghost.keys ⊆ page'.ghost.keys

/-- Nothing moves of what the others compare. -/
theorem moves_of_core (h : page'.core = page.core) : page.Moves me page' where
  apart i _ := by rw [Apart, h]; exact .refl i _
  keys := by
    have hkeys : page'.ghost.keys = page.ghost.keys := congrArg Core.keys h
    rw [hkeys]
    exact List.Subset.refl _

@[simp] theorem core_notify (message : JString) (error : Bool) :
    (page.notify message error).core = page.core := by
  unfold Page.notify
  split <;> rfl

theorem Sound.notify (h : page.Sound genuine uuid) (message : JString) (error : Bool) :
    (page.notify message error).Sound genuine uuid := by
  unfold Page.notify
  split
  · exact { h with }
  · exact { h with }

/-! ## Requests -/

theorem moves_addRequest (controller : Controller ι) :
    page.Moves me { page with requests := controller :: page.requests } where
  apart i _ :=
    { Core.Apart.refl i page.core with
      requests := fun _ hmem _ => List.mem_cons_of_mem _ hmem }
  keys := List.Subset.refl _

theorem moves_removeRequest [DecidableEq ι] {controller : Controller ι}
    (hmine : controller.handler = me) :
    page.Moves me { page with requests := page.requests.filter (· ≠ controller) } where
  apart i hi :=
    { Core.Apart.refl i page.core with
      requests := fun other hmem hother => by
        have hne : other ≠ controller := by rintro rfl; exact hi (hother.symm.trans hmine)
        exact List.mem_filter.mpr ⟨hmem, by simpa using hne⟩ }
  keys := List.Subset.refl _

/-! ## The receipt that is open -/

theorem apart_abort (i : ι) (controllers : List (Controller ι)) :
    page.Apart i (page.abort controllers) :=
  { Core.Apart.refl i page.core with
    aborted := List.subset_append_right ..
    ended := fun hlt => absurd hlt (lt_irrefl _) }

theorem apart_clearOriginalImage (i : ι) : page.Apart i page.clearOriginalImage :=
  apart_abort i page.originalImageRequest.toList

theorem apart_takeDetail (i : ι) : page.Apart i (page.takeDetail me) :=
  { Core.Apart.refl i page.core with
    detailRequest := Nat.le_succ _
    detailTaker := fun h => absurd h (Nat.succ_ne_self _)
    detail := fun h => absurd h (Nat.succ_ne_self _) }

/-- The page is left without a receipt. -/
theorem apart_closeDetail (i : ι) : page.Apart i (page.closeDetail me) :=
  { Core.Apart.refl i page.core with
    detailRequest := Nat.le_succ _
    detailTaker := fun h => absurd h (Nat.succ_ne_self _)
    detail := fun h => absurd h (Nat.succ_ne_self _)
    aborted := List.subset_append_right ..
    ended := fun hlt => absurd hlt (lt_irrefl _) }

theorem Sound.closeDetail (h : page.Sound genuine uuid) :
    (page.closeDetail me).Sound genuine uuid :=
  { h with
    closed := fun he =>
      let hclosed := h.closed he
      ⟨hclosed.1, rfl, hclosed.2.2⟩
    detail := fun _ hr => by cases hr
    noDetail := fun _ => ⟨rfl, rfl⟩
    audit := fun _ hr => by cases hr
    image := fun _ _ hr => by cases hr }

theorem Sound.clearOriginalImage (h : page.Sound genuine uuid) :
    page.clearOriginalImage.Sound genuine uuid :=
  { h with
    noDetail := fun hr => ⟨(h.noDetail hr).1, rfl⟩
    image := fun _ _ _ hblob => by cases hblob }

/-! ## The session -/

theorem apart_endSession (i : ι) : page.Apart i (page.endSession me) where
  session := Nat.le_succ _
  listRequest := Nat.le_succ _
  selected h := absurd h (Nat.succ_ne_self _)
  listTaker h := absurd h (Nat.succ_ne_self _)
  rowsRequest := le_rfl
  rows _ _ := rfl
  detailRequest := Nat.le_succ _
  detailTaker h := absurd h (Nat.succ_ne_self _)
  detail h := absurd h (Nat.succ_ne_self _)
  keys := List.Subset.refl _
  requests _ hmem _ := hmem
  aborted := fun _ hmem => List.mem_append_right _ (List.mem_append_right _ hmem)
  ended _ _ hmem _ := List.mem_append_right _ (List.mem_append_left _ hmem)

theorem Sound.endSession (h : page.Sound genuine uuid) :
    (page.endSession me).Sound genuine uuid where
  employee _ he := by cases he
  rows := .inl rfl
  rowsRequest := h.rowsRequest.trans (Nat.le_succ _)
  listed heq := absurd heq (Nat.ne_of_lt (Nat.lt_succ_of_le h.rowsRequest))
  closed _ := ⟨rfl, rfl, rfl, rfl⟩
  detail _ hr := by cases hr
  noDetail _ := ⟨rfl, rfl⟩
  audit _ hr := by cases hr
  image _ _ hr := by cases hr
  tokens _ hissued := by rcases hissued with hissued | hissued <;> cases hissued
  uploadKey _ hkey := by cases hkey
  drawn := h.drawn
  keys := h.keys

/-! ## The view that is selected -/

theorem Sound.clearIssuedToken (h : page.Sound genuine uuid) :
    page.clearIssuedToken.Sound genuine uuid :=
  { h with
    closed := fun he =>
      let hclosed := h.closed he
      ⟨hclosed.1, hclosed.2.1, rfl, rfl⟩
    tokens := fun _ hissued => by rcases hissued with hissued | hissued <;> cases hissued }

/-- `++state.listRequest`, for a page of a view. -/
theorem apart_takeList (i : ι) (view : View) (number : ℕ) :
    page.Apart i ({ page with view, page := number }.takeList me) :=
  { Core.Apart.refl i page.core with
    listRequest := Nat.le_succ _
    selected := fun h => absurd h (Nat.succ_ne_self _)
    listTaker := fun h => absurd h (Nat.succ_ne_self _)
    rows := fun _ _ => rfl }

theorem Sound.takeList (h : page.Sound genuine uuid) (number : ℕ) :
    ({ page with page := number }.takeList me).Sound genuine uuid :=
  { h with
    rowsRequest := h.rowsRequest.trans (Nat.le_succ _)
    listed := fun heq => absurd heq (Nat.ne_of_lt (Nat.lt_succ_of_le h.rowsRequest)) }

/-- Another view is selected where no token is shown. -/
theorem Sound.select (h : page.Sound genuine uuid)
    (htokens : page.issued = none ∧ page.reissued = none) (view : View) (filters : Filters) :
    ({ page with view, page := 0, filters }.takeList me).Sound genuine uuid :=
  { h with
    rowsRequest := h.rowsRequest.trans (Nat.le_succ _)
    listed := fun heq => absurd heq (Nat.ne_of_lt (Nat.lt_succ_of_le h.rowsRequest))
    tokens := fun token hissued => by
      have hnone : page.issued = some token ∨ page.reissued = some token := hissued
      rw [htokens.1, htokens.2] at hnone
      rcases hnone with hnone | hnone <;> cases hnone }

theorem apart_switchView (i : ι) (view : View) : page.Apart i (page.switchView me view) :=
  (apart_closeDetail i).trans (apart_takeList i view 0)

theorem Sound.switchView (h : page.Sound genuine uuid) (view : View) :
    (page.switchView me view).Sound genuine uuid :=
  h.closeDetail.clearIssuedToken.select ⟨rfl, rfl⟩ view .empty

/-- What `enterWorkspace` does before the list is loaded. -/
theorem Sound.enterWorkspace (h : page.Sound genuine uuid) {employee : EmployeeResponse}
    (hme : genuine page.ghost.session .me employee) (notice : Option Notice) (view : View) :
    (({ page with employee := some employee, notice } : Page ι).switchView me view).Sound
      genuine uuid :=
  have hclosed : (({ page with employee := some employee, notice } : Page ι).closeDetail
      me).clearIssuedToken.Sound genuine uuid :=
    { h.closeDetail.clearIssuedToken with
      employee := fun _ he => by cases he; exact hme
      closed := fun he => by cases he
      tokens := fun _ hissued => by rcases hissued with hissued | hissued <;> cases hissued }
  hclosed.select ⟨rfl, rfl⟩ view .empty

/-! ## The list -/

/-- The handler that has asked last for a list shows it. -/
theorem moves_showReceipts (h : page.Sound genuine uuid) {requestId : ℕ}
    (htaker : page.listRequest = requestId → page.ghost.listTaker = some me)
    (results : ReceiptPageResponse) : page.Moves me (page.showReceipts requestId results) := by
  unfold Page.showReceipts
  split
  case isTrue => exact moves_of_core rfl
  case isFalse hcurrent =>
    have hrequest : requestId = page.listRequest := by
      by_contra hne
      exact hcurrent (by simp [hne])
    exact
      { apart := fun i hi =>
          { Core.Apart.refl i page.core with
            rowsRequest := hrequest ▸ h.rowsRequest
            rows := fun _ hmine =>
              absurd (Option.some.inj ((htaker hrequest.symm).symm.trans hmine)).symm hi }
        keys := List.Subset.refl _ }

/-- The list that is shown is the one that was asked for last. -/
theorem Sound.showReceipts (h : page.Sound genuine uuid) {requestId : ℕ}
    {results : ReceiptPageResponse} {view : View} {number : ℕ} {filters : Filters}
    (hgenuine : genuine page.ghost.session (.receipts view number 10 filters) results)
    (hselected : page.listRequest = requestId → page.view = view ∧ page.page = number) :
    (page.showReceipts requestId results).Sound genuine uuid := by
  unfold Page.showReceipts
  split
  case isTrue => exact h
  case isFalse hcurrent =>
    rw [Bool.or_eq_true, not_or] at hcurrent
    have hrequest : requestId = page.listRequest := by simpa using hcurrent.2
    obtain ⟨rfl, rfl⟩ := hselected hrequest.symm
    exact
      { h with
        rows := .inr ⟨_, _, _, _, hgenuine, rfl⟩
        rowsRequest := hrequest.le
        listed := fun _ _ => ⟨_, _, hgenuine, rfl⟩
        closed := fun he => absurd (by rw [he]; rfl : page.employee.isNone = true) hcurrent.1 }

/-! ## What is shown of a receipt -/

/-- The handler that has asked last for a receipt opens it. -/
theorem apart_openDetail {receipt : ReceiptResponse} (htaker : page.ghost.detailTaker = some me)
    {i : ι} (hi : i ≠ me) : page.Apart i { page with detail := some receipt } :=
  { Core.Apart.refl i page.core with
    detail := fun _ hmine => absurd (Option.some.inj (htaker.symm.trans hmine)).symm hi }

/-- The receipt that is open is shown anew. -/
theorem core_renderDetail {receipt shown : ReceiptResponse} (hshown : page.detail = some shown)
    (hid : shown.id = receipt.id) :
    ({ page with detail := some receipt } : Page ι).core = page.core := by
  have hdetail : page.core.detail = some receipt.id := by
    show page.detail.map (·.id) = some receipt.id
    rw [hshown, Option.map_some, hid]
  show { page.core with detail := some receipt.id } = page.core
  rw [← hdetail]

theorem Sound.openDetail (h : page.Sound genuine uuid) {receipt : ReceiptResponse}
    (hreturned : Returned genuine page.ghost.session receipt) (hemployee : page.employee ≠ none)
    (hdetail : page.detail = none) :
    ({ page with detail := some receipt } : Page ι).Sound genuine uuid :=
  have hempty := h.noDetail hdetail
  { h with
    closed := fun he => absurd he hemployee
    detail := fun _ hr => by cases hr; exact hreturned
    noDetail := fun hr => by cases hr
    audit := fun _ _ => .inl hempty.1
    image := fun _ _ _ hblob => by rw [hempty.2] at hblob; cases hblob }

theorem Sound.renderDetail (h : page.Sound genuine uuid) {receipt shown : ReceiptResponse}
    (hreturned : Returned genuine page.ghost.session receipt)
    (hshown : page.detail = some shown) (hid : shown.id = receipt.id) :
    ({ page with detail := some receipt } : Page ι).Sound genuine uuid :=
  { h with
    closed := fun he => by rw [(h.closed he).2.1] at hshown; cases hshown
    detail := fun _ hr => by cases hr; exact hreturned
    noDetail := fun hr => by cases hr
    audit := fun _ hr => by cases hr; exact hid ▸ h.audit shown hshown
    image := fun _ blob hr hblob => by cases hr; exact hid ▸ h.image shown blob hshown hblob }

theorem Sound.showAudit (h : page.Sound genuine uuid) {shown : ReceiptResponse}
    {events : List AuditEventResponse} (hshown : page.detail = some shown)
    (hevents : genuine page.ghost.session (.auditEvents shown.id) events) :
    ({ page with auditEvents := events } : Page ι).Sound genuine uuid :=
  { h with
    noDetail := fun hr => by rw [hshown] at hr; cases hr
    audit := fun _ hr => by rw [hshown] at hr; cases hr; exact .inr hevents }

theorem Sound.showImage (h : page.Sound genuine uuid) {shown : ReceiptResponse}
    {blob : ReceiptImageResponse} (hshown : page.detail = some shown)
    (hblob : genuine page.ghost.session (.image shown.id) blob) :
    ({ page with originalImageUrl := some blob } : Page ι).Sound genuine uuid :=
  { h with
    noDetail := fun hr => by rw [hshown] at hr; cases hr
    image := fun _ _ hr hurl => by
      rw [hshown] at hr
      cases hr
      cases hurl
      exact hblob }

/-! ## Tokens and files -/

/-- A token is shown to an administrator in the view of the employees. -/
theorem Sound.showTokens (h : page.Sound genuine uuid) {requestId : ℕ}
    (hawaits : page.awaitsToken requestId = true) {issued reissued : Option IssuedEmployee}
    (htokens : ∀ token, issued = some token ∨ reissued = some token →
      IssuedBy genuine page.ghost.session token) :
    ({ page with issued, reissued } : Page ι).Sound genuine uuid := by
  simp only [awaitsToken, Bool.and_eq_true, decide_eq_true_eq] at hawaits
  exact
    { h with
      closed := fun he => by rw [he] at hawaits; simp at hawaits
      tokens := fun token hissued => ⟨htokens token hissued, hawaits.1.2, hawaits.2⟩ }

theorem Sound.clearFile (h : page.Sound genuine uuid) : page.clearFile.Sound genuine uuid :=
  { h with uploadKey := fun _ hkey => by cases hkey }

theorem Sound.selectFile (h : page.Sound genuine uuid) (file : Option File) :
    (page.selectFile file).Sound genuine uuid := by
  have hselected : ({ page with previewUrl := none, uploadKey := none, receiptFile := file } :
      Page ι).Sound genuine uuid := { h with uploadKey := fun _ hkey => by cases hkey }
  unfold Page.selectFile
  cases file with
  | none => exact hselected
  | some file =>
      dsimp only
      split
      · exact hselected.clearFile.notify _ _
      · exact { hselected with }

theorem core_selectFile (file : Option File) : (page.selectFile file).core = page.core := by
  unfold Page.selectFile
  cases file with
  | none => rfl
  | some file =>
      dsimp only
      split
      · exact core_notify _ _
      · rfl

theorem moves_takeKey : page.Moves me (page.takeKey uuid) := by
  unfold Page.takeKey
  split
  case h_1 => exact moves_of_core rfl
  case h_2 =>
    exact
      { apart := fun i _ =>
          { Core.Apart.refl i page.core with keys := List.subset_cons_self _ _ }
        keys := List.subset_cons_self _ _ }

/-- A key is drawn once, so that it stands for one file. -/
theorem Sound.takeKey (h : page.Sound genuine uuid) (huuid : Function.Injective uuid) :
    (page.takeKey uuid).Sound genuine uuid := by
  unfold Page.takeKey
  split
  case h_1 => exact h
  case h_2 =>
    have hfresh : uuid page.uuids ∉ page.ghost.keys.map (·.1) := by
      intro hmem
      obtain ⟨drawn, hdrawn, heq⟩ := List.mem_map.mp hmem
      obtain ⟨n, hn, hkey⟩ := h.drawn drawn hdrawn
      exact absurd (huuid (hkey.symm.trans heq)) hn.ne
    exact
      { h with
        uploadKey := fun _ hkey => by cases hkey; exact List.mem_cons_self
        drawn := fun drawn hdrawn => by
          rcases List.mem_cons.mp hdrawn with rfl | hdrawn
          · exact ⟨_, Nat.lt_succ_self _, rfl⟩
          · obtain ⟨n, hn, hkey⟩ := h.drawn drawn hdrawn
            exact ⟨n, hn.trans (Nat.lt_succ_self _), hkey⟩
        keys := List.nodup_cons.mpr ⟨hfresh, h.keys⟩ }

end Page

end ReceiptReview.ReceiptApp
