import ReceiptReview.Results.Finality

/-!
# The audit log as a replay

The log of a receipt determines the receipt: replayed from nothing, its events
chain up and end in the stored status and data (`log_replays`).

The events are written by hand at nine places, and the outcomes of an extraction
record a previous status that is always null.  That the chain holds all the same
rests on the agreement of the two entities: an outcome needs a pending job, and
then the receipt has neither a status nor data.
-/

namespace ReceiptReview

open Java Store ReceiptCase ReceiptCommandService ReceiptPersistenceService
open ReceiptExtractionLifecycleService

variable {P : Platform} {employees : Table Employee} {trace : List Commit} {commit : Commit}
variable {operation : Operation} {x x' : ReceiptCase} {events log : List AuditEvent}

/-! ## Replaying a log -/

/-- Receipt data in the details of an event; an absent entry means null. -/
def AuditEvent.data (event : AuditEvent) (name : String) : Option ReceiptData :=
  match event.details.lookup name with
  | some (.data data) => some data
  | _ => none

/-- What the log of a receipt says about it so far. -/
structure LogState where
  status : Option ReceiptStatus
  data : Option ReceiptData
  deriving DecidableEq, Repr

namespace LogState

/-- Before the first event. -/
def start : LogState where
  status := none
  data := none

/-- Replay one event, unless it contradicts what the log has said before. -/
def next (state : LogState) (event : AuditEvent) : Option LogState :=
  if event.newStatus.isSome ∧ event.previousStatus ≠ state.status then none
  else if event.action = .fieldsCorrected ∧ event.data "before" ≠ state.data then none
  else some {
    status := event.newStatus.or state.status
    data :=
      match event.action with
      | .extractionCompleted => event.data "proposedData"
      | .fieldsCorrected => event.data "after"
      | _ => state.data }

/-- Replay events in the order in which they were committed. -/
def replay (state : LogState) (events : List AuditEvent) : Option LogState :=
  events.foldlM next state

theorem replay_append (state : LogState) (events events' : List AuditEvent) :
    state.replay (events ++ events') = (state.replay events).bind (·.replay events') :=
  List.foldlM_append

@[simp] theorem replay_nil (state : LogState) : state.replay [] = some state := rfl

theorem replay_cons (state : LogState) (event : AuditEvent) (events : List AuditEvent) :
    state.replay (event :: events) = (state.next event).bind (·.replay events) := rfl

/-- An event without a status that carries no data. -/
theorem next_of_silent {state : LogState} {event : AuditEvent} (hstatus : event.newStatus = none)
    (hextracted : event.action ≠ .extractionCompleted)
    (hcorrected : event.action ≠ .fieldsCorrected) : state.next event = some state := by
  unfold next
  rw [if_neg (by simp [hstatus]), if_neg (by simp [hcorrected]), hstatus]
  split
  · rename_i haction
    exact absurd haction hextracted
  · rename_i haction
    exact absurd haction hcorrected
  · rfl

/-- Any number of such events. -/
theorem replay_of_silent {state : LogState} (h : ∀ event ∈ events, event.newStatus = none ∧
    event.action ≠ .extractionCompleted ∧ event.action ≠ .fieldsCorrected) :
    state.replay events = some state := by
  induction events with
  | nil => rfl
  | cons event events ih =>
      obtain ⟨hstatus, hextracted, hcorrected⟩ := h event (by simp)
      rw [replay_cons, next_of_silent hstatus hextracted hcorrected]
      exact ih fun later hlater => h later (by simp [hlater])

/-- An event that changes the status and carries no data. -/
theorem next_of_status {state : LogState} {event : AuditEvent} {status : ReceiptStatus}
    (hprevious : event.previousStatus = state.status) (hnew : event.newStatus = some status)
    (hextracted : event.action ≠ .extractionCompleted)
    (hcorrected : event.action ≠ .fieldsCorrected) :
    state.next event = some { state with status := some status } := by
  unfold next
  rw [if_neg (by simp [hprevious]), if_neg (by simp [hcorrected]), hnew]
  split
  · rename_i haction
    exact absurd haction hextracted
  · rename_i haction
    exact absurd haction hcorrected
  · rfl

end LogState

/-- What the log of a case has to say in the end. -/
def ReceiptCase.logState (x : ReceiptCase) : LogState where
  status := x.receipt.status
  data := x.receipt.currentData

/-! ## One step -/

/-- A receipt without a status has no data. -/
def ReceiptCase.Unread (x : ReceiptCase) : Prop :=
  x.receipt.status = none → x.receipt.currentData = none

theorem ReceiptCase.Step.unread (h : Step employees operation x events x') (hx : x.Unread) :
    x'.Unread := by
  cases h with
  | claimed | released | recovered | retryScheduled | duplicateDeferred => exact hx
  | qualityRejected | extracted | failed | duplicateMarked | corrected | decided =>
      intro hstatus
      exact absurd hstatus (by simp [Receipt.flushed, Receipt.completeExtraction,
        Receipt.updateData, Receipt.changeStatus, ReceiptCommandService.corrected])

theorem ReceiptCase.Reaches.unread (h : Reaches P employees x log) : x.Unread := by
  induction h with
  | created hpermitted =>
      obtain ⟨call, contentType, now, rfl, -, -⟩ := hpermitted
      exact fun _ => rfl
  | step _ _ hstep ih => exact hstep.unread ih

/-- While a claim is held, the log has said nothing. -/
theorem ReceiptCase.logState_of_owned (hx : x.Consistent) (hunread : x.Unread)
    {workerId claimToken : Option JString} (howned : x.job.isOwnedBy workerId claimToken) :
    x.logState = .start := by
  have hstatus := hx.status_of_owned howned
  simp [logState, LogState.start, hstatus, hunread hstatus]

/-- The operation writes a batch of jobs and no receipt. -/
def Operation.isBatch : Operation → Bool
  | .claimAvailable .. | .recoverExpired .. => true
  | _ => false

theorem decidedAction_ne (decision : ReviewDecision) :
    decidedAction decision ≠ .extractionCompleted ∧ decidedAction decision ≠ .fieldsCorrected := by
  cases decision <;> decide

/-- The first event of an extraction carries the proposed data. -/
theorem next_extracted (state : LogState) (id : Long) (now : Instant)
    (extraction : ExtractionResult) :
    state.next (systemEvent id now .extractionCompleted none none (extractionDetails extraction)) =
      some { state with data := extraction.data } := by
  have hdata : (systemEvent id now .extractionCompleted none none
      (extractionDetails extraction)).data "proposedData" = extraction.data := by
    cases hdata : extraction.data <;>
      simp [AuditEvent.data, systemEvent, extractionDetails, hdata, List.lookup_cons]
  unfold LogState.next
  rw [if_neg (by simp [systemEvent]), if_neg (by simp [systemEvent])]
  simp only [systemEvent] at hdata ⊢
  rw [hdata]
  rfl

/-- The event of a correction carries the data before and after it. -/
theorem data_correctedEvent (employee : Employee) (receipt : Receipt)
    (corrections : FieldCorrections) (today : LocalDate) (now : Instant) :
    (correctedEvent employee receipt corrections today now).data "before" = receipt.currentData ∧
      (correctedEvent employee receipt corrections today now).data "after" =
        some (corrections.applyTo receipt.currentData) := by
  cases hdata : receipt.currentData <;>
    simp [AuditEvent.data, correctedEvent, employeeEvent, createCorrectionDetails, hdata,
      List.lookup_cons]

theorem next_correctedEvent (employee : Employee) (receipt : Receipt)
    (corrections : FieldCorrections) (today : LocalDate) (now : Instant) :
    LogState.next ⟨receipt.status, receipt.currentData⟩
        (correctedEvent employee receipt corrections today now) =
      some ⟨(ReceiptCommandService.corrected employee receipt corrections today now).status,
        some (corrections.applyTo receipt.currentData)⟩ := by
  obtain ⟨hbefore, hafter⟩ := data_correctedEvent employee receipt corrections today now
  unfold LogState.next
  rw [if_neg (by simp [correctedEvent, employeeEvent]), if_neg (by simp [hbefore]), hafter]
  rfl

/-- The events of one step take the log from the case before it to the case
after it. -/
theorem ReceiptCase.Step.replayed (h : Step employees operation x events x') (hx : x.Consistent)
    (hunread : x.Unread) (hread : x.receipt.reread = x.receipt)
    (hsilent : operation.isBatch = true → ∀ event ∈ events, event.newStatus = none) :
    x.logState.replay events = some x'.logState := by
  cases h with
  | claimed _ hactions | recovered _ hactions =>
      refine LogState.replay_of_silent fun event hmem => ⟨hsilent rfl event hmem, ?_, ?_⟩
      · rw [hactions event hmem]
        decide
      · rw [hactions event hmem]
        decide
  | released => rfl
  | qualityRejected _ _ hcomplete =>
      -- the outcomes record a previous status that is null
      have howned := (ReceiptExtractionJob.complete_eq_ok hcomplete).1
      rw [logState_of_owned hx hunread howned, LogState.replay_cons]
      rw [LogState.next_of_status rfl rfl (by simp [systemEvent]) (by simp [systemEvent])]
      rfl
  | extracted _ _ hcomplete _ =>
      have howned := (ReceiptExtractionJob.complete_eq_ok hcomplete).1
      rw [logState_of_owned hx hunread howned, LogState.replay_cons, next_extracted,
        Option.bind_some, LogState.replay_cons]
      rw [LogState.next_of_status rfl rfl (by simp [systemEvent]) (by simp [systemEvent])]
      rfl
  | retryScheduled => exact LogState.replay_of_silent (by simp [systemEvent])
  | failed _ _ hfail =>
      have howned := (ReceiptExtractionJob.fail_eq_ok hfail).1
      rw [logState_of_owned hx hunread howned, LogState.replay_cons]
      rw [LogState.next_of_status rfl rfl (by simp [systemEvent]) (by simp [systemEvent])]
      rfl
  | duplicateDeferred =>
      exact LogState.replay_of_silent (by simp [deferredEvent, systemEvent])
  | duplicateMarked _ hstatus _ =>
      rw [hread, LogState.replay_cons]
      rw [LogState.next_of_status hstatus.symm rfl (by simp [duplicateEvent, systemEvent])
        (by simp [duplicateEvent, systemEvent])]
      rfl
  | corrected =>
      rw [hread, logState, LogState.replay_cons, next_correctedEvent]
      rfl
  | decided =>
      rw [hread, LogState.replay_cons]
      rw [LogState.next_of_status rfl rfl (decidedAction_ne _).1 (decidedAction_ne _).2]
      rfl

/-! ## Whole runs -/

/-- A batch of jobs is written without any status. -/
theorem Run.silent_of_isBatch (h : Run P employees (commit :: trace))
    (hbatch : commit.operation.isBatch = true) :
    ∀ event ∈ commit.changes.events, event.newStatus = none := by
  obtain ⟨-, -, -, -, snapshot, -, hbody⟩ := h.head
  generalize commit.operation = operation at hbody hbatch
  cases operation with
  | claimAvailable =>
      simp only [Operation.body, replyWith_eq_ok] at hbody
      obtain ⟨claims, hclaim, -⟩ := hbody
      obtain ⟨claimed, -, -, -, hchanges⟩ := ReceiptJobClaimService.claimAvailable_eq_ok hclaim
      rw [hchanges]
      intro event hmem
      obtain ⟨job, -, rfl⟩ := List.mem_map.mp hmem
      rfl
  | recoverExpired =>
      simp only [Operation.body, replyWith_eq_ok] at hbody
      obtain ⟨u, hrecover, -⟩ := hbody
      obtain ⟨recovered, events, -, hevents, hchanges⟩ :=
        ExpiredJobRecoveryService.recoverExpired_eq_ok hrecover
      rw [hchanges]
      exact fun event hmem => (hevents event hmem).2.1
  | _ => exact absurd hbatch (by simp [Operation.isBatch])

/-- The audit log is a complete replay of the receipt: in every reachable state
the events of every receipt whose data reads back as written, in the order of the
commits, chain up from nothing and end in its stored status and data. -/
theorem log_replays (hrun : Run P employees trace) :
    ∀ id receipt, ReadsBack trace id →
      (current employees trace).receiptRow id = some receipt →
      LogState.start.replay (eventsFor id (current employees trace).auditEvents) =
        some ⟨receipt.status, receipt.currentData⟩ := by
  suffices hcases : ∀ {x}, ReadsBack trace x.receipt.id → (current employees trace).HasCase x →
      LogState.start.replay (eventsFor x.receipt.id (current employees trace).auditEvents) =
        some x.logState by
    intro id receipt hread hreceipt
    obtain ⟨x, hx, rfl⟩ := hrun.current_refines.paired.of_receipt hreceipt
    rw [← Database.id_of_receiptRow hreceipt] at hread ⊢
    exact hcases hread hx
  induction trace with
  | nil =>
      intro x _ hx
      exact absurd hx.receipt (by simp [current, Database.initial, Database.receiptRow])
  | cons commit trace ih =>
      intro x' hread hx'
      obtain ⟨hrun', hbefore, hpermitted, hcommit, -⟩ := hrun.head
      show LogState.start.replay (eventsFor x'.receipt.id commit.after.auditEvents) = _
      rw [Database.auditEvents_commit hcommit, eventsFor_append, LogState.replay_append, hbefore]
      rcases hrun.created_or_moved hx' with
        ⟨_, _, _, auditEvents, receiptId, _, _, _, hoperation, rfl, hevents, hfresh⟩ |
        ⟨x, hx, hmoves⟩
      · -- the log of a new receipt is that of its intake
        rw [hoperation] at hpermitted
        obtain ⟨call, contentType, now, rfl, -, rfl⟩ := hpermitted
        have hnone : eventsFor receiptId (current employees trace).auditEvents = [] :=
          hrun'.current_refines.eventsFor_eq_nil (hbefore ▸ hfresh)
        rw [hevents]
        show ((LogState.start.replay (eventsFor receiptId _)).bind
          (·.replay (eventsFor receiptId _))) = _
        rw [hnone, LogState.replay_nil, Option.bind_some, eventsFor_eq_self (by
          simp [AuditEvent.attachTo])]
        rfl
      · rw [hmoves.sameReceipt.id] at hread
        rw [hmoves.sameReceipt.id, ih hrun' hread.tail hx, Option.bind_some]
        rcases hmoves with ⟨rfl, hquiet⟩ | hstep
        · -- the commit is about another receipt
          rw [hquiet, LogState.replay_nil]
        · -- the step records what it changes, on data that reads back
          refine hstep.replayed (hrun'.consistent hx) (hrun'.current_refines.reaches hx).unread
            (hread.tail.reread hx rfl) ?_
          intro hbatch event hmem
          exact hrun.silent_of_isBatch hbatch event (List.mem_of_mem_filter hmem)

open Sample in
/-- The six events of an approval tell the approved receipt. -/
theorem approvalTrace_replays :
    LogState.start.replay (eventsFor 1 (current staff approvalTrace).auditEvents) =
      some ⟨some .approved, some goodData⟩ :=
  log_replays approvalTrace_run 1 _ (by decide) rfl

end ReceiptReview
