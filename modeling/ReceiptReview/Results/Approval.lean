import ReceiptReview.Results.FourEyes

/-!
# Approved receipts

What was checked when a receipt was approved is true of the approved receipt:
the decision has read the version that it writes, and neither its status nor its
data change afterwards.
-/

namespace ReceiptReview

open Java Store ReceiptCase ReceiptCommandService CurrentEmployeeService

variable {P : Platform} {employees : Table Employee} {trace : List Commit}
variable {operation : Operation} {x x' : ReceiptCase} {events : List AuditEvent}

/-- The fields without which a receipt cannot be approved. -/
structure ReceiptData.Complete (data : ReceiptData) : Prop where
  shopName : ∃ shopName, data.shopName = some shopName ∧ shopName.isBlank = false
  date : ∃ date, data.date = some date
  totalAmount : ∃ totalAmount, data.totalAmount = some totalAmount ∧ 0 < totalAmount.signum

/-- The decision by which a receipt was approved, with what it has checked of
the version `before` it. -/
structure Operation.Approves (operation : Operation) (before : Receipt) : Prop where
  decided : ∃ session note now,
    operation = .decide session before.id before.version .approve note now
  owner : ∃ owner, before.ownerEmployeeId = some owner
  readable : before.status ≠ some .needsRecapture ∧ before.status ≠ some .unreadable
  complete : ∃ data, before.currentData = some data ∧ data.Complete

/-- A receipt becomes approved by a decision only, on the data that the decision has read. -/
theorem ReceiptCase.Step.approves (h : Step employees operation x events x') (hx : x.Consistent)
    (happroved : x'.receipt.status = some .approved) (hnot : x.receipt.status ≠ some .approved) :
    operation.Approves x.receipt.reread ∧
      x'.receipt.currentData = x.receipt.reread.currentData := by
  have hmachine := h.unattended hx
  cases h with
  | corrected => exact absurd (Option.some.inj happroved) correctedStatus_ne_approved
  | decided _ hpermission hversion _ happroval =>
      rename_i session expectedVersion decision note now employee _ _
      cases decision with
      | reject =>
          exact absurd happroved (by simp [Receipt.flushed, Receipt.changeStatus, decidedStatus])
      | approve =>
          obtain ⟨hrecapture, hunreadable, data, hdata, hname, hdate, hamount⟩ :=
            validateApproval_eq_ok (happroval rfl)
          obtain ⟨-, owner, howner, -⟩ := validateReviewPermission_eq_ok.mp hpermission
          have hsame : (x.receipt.reread.version : ℤ) = expectedVersion := by
            simpa [ensureVersion] using hversion
          exact ⟨⟨⟨session, note, now, by rw [hsame]; rfl⟩, ⟨owner, howner⟩,
            ⟨hrecapture, hunreadable⟩, data, hdata, hname, hdate, hamount⟩, rfl⟩
  | _ => exact absurd ((hmachine rfl).approved.mp happroved) hnot

/-- Behind an approved receipt stands the decision that has approved it, on the
data that it still has. -/
theorem Run.approved_by (h : Run P employees trace)
    (hx' : (current employees trace).HasCase x') (happroved : x'.receipt.status = some .approved) :
    ∃ commit earlier x, commit :: earlier <:+ trace ∧ (current employees earlier).HasCase x ∧
      commit.operation.Approves x.receipt.reread ∧ SameReceipt x.receipt x'.receipt ∧
      x'.receipt.currentData = x.receipt.reread.currentData := by
  induction trace generalizing x' with
  | nil =>
      have hreceipt := hx'.receipt
      simp [current, Database.initial, Database.receiptRow] at hreceipt
  | cons commit trace ih =>
      rcases h.created_or_moved hx' with
        ⟨_, _, _, _, _, _, _, _, hoperation, rfl, -⟩ | ⟨x, hx, hmoves⟩
      · -- a new receipt has no status
        have hpermitted := h.head.2.2.1
        rw [hoperation] at hpermitted
        obtain ⟨call, contentType, now, rfl, -, -⟩ := hpermitted
        exact absurd happroved (by simp [intake, ReceiptUploadService.acceptedReceipt, Receipt.new])
      · by_cases hbefore : x.receipt.status = some .approved
        · obtain ⟨decision, earlier, y, hsuffix, hy, happroves, hsame, hdata⟩ :=
            ih h.head.1 hx hbefore
          refine ⟨decision, earlier, y, hsuffix.trans (List.suffix_cons _ _), hy, happroves,
            hsame.trans hmoves.sameReceipt, ?_⟩
          rcases hmoves with ⟨rfl, -⟩ | hstep
          · exact hdata
          · have hreaches := h.head.1.current_refines.reaches hx
            exact (hstep.final_receipt hreaches.consistent hreaches.decidedAsRead hbefore
              (.inl rfl)).2.trans hdata
        · rcases hmoves with ⟨rfl, -⟩ | hstep
          · exact absurd happroved hbefore
          · obtain ⟨happroves, hdata⟩ := hstep.approves (h.head.1.consistent hx) happroved hbefore
            exact ⟨commit, trace, x, List.suffix_rfl, hx, happroves, hstep.sameReceipt, hdata⟩

/-- In every reachable state, an approved receipt has an owner and complete
data, was approved by a decision on a readable version with that data, and stays
approved with the same owner and data for the rest of the run. -/
theorem approved_receipts (hrun : Run P employees trace) {earlier : List Commit}
    (hearlier : earlier <:+ trace) {id : Long} {receipt : Receipt}
    (hreceipt : (current employees earlier).receiptRow id = some receipt)
    (happroved : receipt.status = some .approved) :
    (∃ owner, receipt.ownerEmployeeId = some owner) ∧
    (∃ data, receipt.currentData = some data ∧ data.Complete) ∧
    (∃ commit before version, commit :: before <:+ earlier ∧
      (current employees before).findReceipt id = some version ∧
      commit.operation.Approves version ∧ version.currentData = receipt.currentData) ∧
    ∃ receipt', (current employees trace).receiptRow id = some receipt' ∧
      receipt'.status = some .approved ∧ receipt'.ownerEmployeeId = receipt.ownerEmployeeId ∧
      receipt'.currentData = receipt.currentData := by
  have hthen := hrun.suffix hearlier
  obtain ⟨x, x', hx, rfl, hnow, hevolves⟩ := hrun.evolves_of_receipt hearlier hreceipt
  have hid : x.receipt.id = id := Database.id_of_receiptRow hreceipt
  obtain ⟨commit, before, y, hsuffix, hy, happroves, hsame, hdata⟩ := hthen.approved_by hx happroved
  have hversion : (current employees before).findReceipt id = some y.receipt.reread := by
    rw [← hid, hsame.id]
    exact Database.findReceipt_of_receiptRow hy.receipt
  obtain ⟨owner, howner⟩ := happroves.owner
  have hreaches := hthen.current_refines.reaches hx
  obtain ⟨hstatus', hdata'⟩ := hevolves.final_receipt hreaches.consistent hreaches.decidedAsRead
    happroved (.inl rfl)
  refine ⟨⟨owner, hsame.ownerEmployeeId.trans howner⟩, ?_, ?_, ?_⟩
  · rw [hdata]
    exact happroves.complete
  · exact ⟨commit, before, y.receipt.reread, hsuffix, hversion, happroves, hdata.symm⟩
  · exact ⟨x'.receipt, hnow, hstatus', hevolves.sameReceipt.ownerEmployeeId, hdata'⟩

open Sample in
/-- The receipt that was approved last has the data that its owner has entered. -/
theorem reviewedTrace_complete :
    ∃ receipt, (current staff reviewedTrace).receiptRow 1 = some receipt ∧
      ∃ data, receipt.currentData = some data ∧ data.Complete := by
  obtain ⟨receipt, hreceipt, happroved⟩ : ∃ receipt,
      (current staff reviewedTrace).receiptRow 1 = some receipt ∧
        receipt.status = some .approved := ⟨_, rfl, rfl⟩
  exact ⟨receipt, hreceipt,
    (approved_receipts reviewedTrace_run List.suffix_rfl hreceipt happroved).2.1⟩

end ReceiptReview
