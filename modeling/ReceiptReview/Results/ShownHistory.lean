import ReceiptReview.Client.Api
import ReceiptReview.Lifecycle.JobQueues
import ReceiptReview.Results.AuditReplay
import ReceiptReview.Results.RetryLog
import ReceiptReview.Store.Replay

/-!
# The history that is shown

The history of a receipt is returned in the order of `occurredAt`, and not in the order of
the commits: the first event of an extraction carries the time at which the extractor was
done, so that a duplicate that was noted meanwhile is shown after it, and the database leaves
the order of equal times open.

It can be replayed all the same (`shown_history_replays`), where the stored data reads back
as written.  The clocks need to go on only from one change of the receipt to the next; the
claims, retries and recoveries of its job may carry any times, since they say nothing about
the receipt.
-/

namespace ReceiptReview

open Java Store ReceiptCase ReceiptQueryService

variable {P : Platform} {employees : Table Employee} {trace : List Commit} {commit : Commit}
variable {operation : Operation} {x x' : ReceiptCase} {events log : List AuditEvent}
variable {event : AuditEvent} {id : Long}

/-! ## Reading a history -/

/-- Receipt data in the details of an entry; an absent one means null. -/
def AuditEventResponse.data (entry : AuditEventResponse) (name : String) : Option ReceiptData :=
  match entry.details.lookup name with
  | some (.data data) => some data
  | _ => none

/-- What a reader concludes from one entry of the history, unless it contradicts those before. -/
def LogState.read (state : LogState) (entry : AuditEventResponse) : Option LogState :=
  if entry.newStatus.isSome ∧ entry.previousStatus ≠ state.status then none
  else if entry.action = .fieldsCorrected ∧ entry.data "before" ≠ state.data then none
  else some {
    status := entry.newStatus.or state.status
    data :=
      match entry.action with
      | .extractionCompleted => entry.data "proposedData"
      | .fieldsCorrected => entry.data "after"
      | _ => state.data }

/-- The response keeps all that a reader needs. -/
theorem LogState.read_ofEvent (state : LogState) (event : AuditEvent) :
    state.read (.ofEvent event) = state.next event := rfl

theorem LogState.foldlM_read (state : LogState) (events : List AuditEvent) :
    (events.map AuditEventResponse.ofEvent).foldlM read state = state.replay events := by
  simp only [List.foldlM_map, read_ofEvent, replay]

/-- The event says something about the status or the data of the receipt. -/
def AuditEvent.tells (event : AuditEvent) : Bool :=
  event.newStatus.isSome || event.action = .extractionCompleted || event.action = .fieldsCorrected

theorem LogState.commutes_of_not_tells (h : event.tells = false) (other : AuditEvent) :
    Commutes LogState.next event other := by
  simp only [AuditEvent.tells, Bool.or_eq_false_iff, decide_eq_false_iff_not,
    Option.isSome_eq_false_iff, Option.isNone_iff_eq_none] at h
  exact .of_pure (fun state => next_of_silent h.1.1 h.1.2 h.2) other

/-- The two events of an extraction tell of different things. -/
theorem LogState.commutes_extracted (receiptId : Long) (extractedAt completedAt : Instant)
    (extraction : ExtractionResult) (status : ReceiptStatus) (rules : List RuleResult) :
    Commutes LogState.next
      (systemEvent receiptId extractedAt .extractionCompleted none none
        (ReceiptExtractionLifecycleService.extractionDetails extraction))
      (systemEvent receiptId completedAt .validationCompleted none (some status)
        [("rules", .rules rules)]) := by
  intro state
  simp only [next_extracted]
  by_cases hstatus : state.status = none
  · have hvalidated : ∀ state : LogState, state.status = none →
        state.next (systemEvent receiptId completedAt .validationCompleted none (some status)
          [("rules", .rules rules)]) = some { state with status := some status } :=
      fun state h => next_of_status h.symm rfl (by simp [systemEvent]) (by simp [systemEvent])
    simp [hvalidated, hstatus]
  · have hrefused : ∀ state : LogState, state.status ≠ none →
        state.next (systemEvent receiptId completedAt .validationCompleted none (some status)
          [("rules", .rules rules)]) = none :=
      fun state h => if_pos ⟨rfl, Ne.symm h⟩
    simp [hrefused, hstatus]

/-! ## What a step records -/

/-- What an operation records of a case: nothing that tells of the receipt, one event at the
present moment, or the two events of an extraction. -/
inductive ReceiptCase.Records (operation : Operation) (x x' : ReceiptCase) :
    List AuditEvent → Prop
  | quiet {events : List AuditEvent} :
      x'.receipt.status = x.receipt.status → (∀ event ∈ events, event.tells = false) →
      Records operation x x' events
  | change {event : AuditEvent} :
      x'.receipt.status ≠ none → event.occurredAt = operation.clock →
      Records operation x x' [event]
  | extraction {claim : ClaimedReceiptJob} {extraction : ExtractionResult}
      {extractedAt completedAt : Instant} {today : LocalDate} {status : ReceiptStatus}
      {rules : List RuleResult} :
      operation = .completeExtraction claim extraction extractedAt today completedAt →
      claim.receiptId = x.receipt.id →
      x.receipt.status = none → x'.receipt.status ≠ none →
      Records operation x x'
        [systemEvent x.receipt.id extractedAt .extractionCompleted none none
            (ReceiptExtractionLifecycleService.extractionDetails extraction),
          systemEvent x.receipt.id completedAt .validationCompleted none (some status)
            [("rules", .rules rules)]]

theorem ReceiptCase.Step.records (h : Step employees operation x events x') (hx : x.Consistent)
    (hbatch : operation.isBatch = true → ∀ event ∈ events, event.newStatus = none) :
    Records operation x x' events := by
  cases h with
  | claimed _ hactions | recovered _ hactions =>
      refine .quiet rfl fun event hmem => ?_
      simp [AuditEvent.tells, hactions event hmem, hbatch rfl event hmem]
  | released => exact .quiet rfl (by simp)
  | retryScheduled => exact .quiet rfl (by simp [AuditEvent.tells, systemEvent])
  | duplicateDeferred =>
      exact .quiet rfl (by
        simp [AuditEvent.tells, ReceiptPersistenceService.deferredEvent, systemEvent])
  | extracted _ hreceiptId hcomplete =>
      have howned := (ReceiptExtractionJob.complete_eq_ok hcomplete).1
      exact .extraction rfl hreceiptId (hx.status_of_owned howned)
        (by simp [Receipt.flushed, Receipt.completeExtraction])
  | qualityRejected | failed | duplicateMarked | corrected | decided =>
      exact .change (by simp [Receipt.flushed, Receipt.completeExtraction, Receipt.updateData,
        Receipt.changeStatus, ReceiptCommandService.corrected]) rfl

/-! ## Whole runs -/

/-- The commit tells of the receipt. -/
def Commit.tellsOf (id : Long) (commit : Commit) : Bool :=
  (eventsFor id commit.changes.events).any AuditEvent.tells

/-- The clocks go on from one change of the receipt to the next, and an extraction is reported
after it was done. -/
structure ClockedInOrder (id : Long) (trace : List Commit) : Prop where
  changes : (trace.filter (·.tellsOf id)).Pairwise fun later earlier =>
    earlier.operation.clock < later.operation.clock
  extractions : ∀ commit ∈ trace, ∀ claim extraction extractedAt today completedAt,
    commit.operation = .completeExtraction claim extraction extractedAt today completedAt →
      claim.receiptId = id → extractedAt ≤ completedAt

theorem ClockedInOrder.tail (h : ClockedInOrder id (commit :: trace)) :
    ClockedInOrder id trace where
  changes := h.changes.sublist ((List.sublist_cons_self commit trace).filter _)
  extractions commit hmem := h.extractions commit (List.mem_cons_of_mem _ hmem)

theorem ClockedInOrder.clock_lt (h : ClockedInOrder id (commit :: trace))
    (htells : commit.tellsOf id = true) {earlier : Commit} (hmem : earlier ∈ trace)
    (hearlier : earlier.tellsOf id = true) : earlier.operation.clock < commit.operation.clock := by
  have hchanges := h.changes
  rw [List.filter_cons_of_pos htells, List.pairwise_cons] at hchanges
  exact hchanges.1 earlier (List.mem_filter.mpr ⟨hmem, hearlier⟩)

/-- What the log of a case is like, as far as its order may be seen from its times. -/
structure ReceiptCase.Logged (trace : List Commit) (x : ReceiptCase) (log : List AuditEvent) :
    Prop where
  replays : LogState.start.replay log = some x.logState
  unread : x.receipt.status = none → ∀ event ∈ log, event.tells = false
  clocked : ∀ event ∈ log, event.tells = true → ∃ commit ∈ trace,
    commit.tellsOf x.receipt.id = true ∧ event.occurredAt ≤ commit.operation.clock
  ordered : log.Pairwise fun a b => ¬ occurredBefore b a ∨ Commutes LogState.next a b

theorem ReceiptCase.Logged.later (h : Logged trace x log) : Logged (commit :: trace) x log :=
  { h with
    clocked := fun event hmem htells => by
      obtain ⟨earlier, hearlier, htime⟩ := h.clocked event hmem htells
      exact ⟨earlier, List.mem_cons_of_mem _ hearlier, htime⟩ }

/-- A commit that changes the receipt tells of it after all that the log has told. -/
theorem ReceiptCase.Logged.ordered_concat (h : Logged trace x log)
    (hclocked : ClockedInOrder x.receipt.id (commit :: trace))
    (hmem : event ∈ eventsFor x.receipt.id commit.changes.events)
    (htime : event.occurredAt = commit.operation.clock) {a : AuditEvent} (ha : a ∈ log) :
    ¬ occurredBefore event a ∨ Commutes LogState.next a event := by
  cases htold : a.tells with
  | false => exact .inr (LogState.commutes_of_not_tells htold event)
  | true =>
      cases htells : event.tells with
      | false => exact .inr (LogState.commutes_of_not_tells htells a).symm
      | true =>
          obtain ⟨earlier, hearlier, hsame, hbefore⟩ := h.clocked a ha htold
          have hlt := hclocked.clock_lt (List.any_eq_true.mpr ⟨event, hmem, htells⟩) hearlier hsame
          refine .inl (not_le.mpr ?_)
          rw [htime]
          exact lt_of_le_of_lt hbefore hlt

/-- The log of a case is continued by what a step records. -/
theorem ReceiptCase.Logged.step (h : Logged trace x log)
    (hclocked : ClockedInOrder x.receipt.id (commit :: trace)) (hid : x'.receipt.id = x.receipt.id)
    (hevents : eventsFor x.receipt.id commit.changes.events = events)
    (hreplayed : x.logState.replay events = some x'.logState)
    (hrecords : Records commit.operation x x' events) :
    Logged (commit :: trace) x' (log ++ events) := by
  have hreplays : LogState.start.replay (log ++ events) = some x'.logState := by
    rw [LogState.replay_append, h.replays, Option.bind_some, hreplayed]
  have htellsOf : ∀ event ∈ events, event.tells = true → commit.tellsOf x'.receipt.id = true :=
    fun event hmem htells => List.any_eq_true.mpr ⟨event, by rwa [hid, hevents], htells⟩
  -- times within the clock of the operation stay within those of the history
  have hclockedNow : (∀ event ∈ events, event.tells = true →
        event.occurredAt ≤ commit.operation.clock) →
      ∀ event ∈ log ++ events, event.tells = true → ∃ commit' ∈ commit :: trace,
        commit'.tellsOf x'.receipt.id = true ∧ event.occurredAt ≤ commit'.operation.clock := by
    intro htimes event hmem htells
    rcases List.mem_append.mp hmem with hmem | hmem
    · rw [hid]
      exact h.later.clocked event hmem htells
    · exact ⟨commit, List.mem_cons_self, htellsOf event hmem htells, htimes event hmem htells⟩
  cases hrecords with
  | quiet hsame hquiet =>
      -- an event that tells nothing commutes with every other one
      refine ⟨hreplays, ?_, hclockedNow fun event hmem htells => ?_, ?_⟩
      · intro hnone event hmem
        rcases List.mem_append.mp hmem with hmem | hmem
        · exact h.unread (hsame ▸ hnone) event hmem
        · exact hquiet event hmem
      · simp [hquiet event hmem] at htells
      · refine List.pairwise_append.mpr ⟨h.ordered, ?_, fun a _ b hb => ?_⟩
        · exact List.pairwise_of_forall_mem_list fun a ha b _ =>
            .inr (LogState.commutes_of_not_tells (hquiet a ha) b)
        · exact .inr (LogState.commutes_of_not_tells (hquiet b hb) a).symm
  | @change event hstatus htime =>
      -- the event carries the clock of its operation, and no told event is later
      refine ⟨hreplays, fun hnone => absurd hnone hstatus, hclockedNow fun event' hmem _ => ?_, ?_⟩
      · obtain rfl := List.mem_singleton.mp hmem
        exact htime.le
      · refine List.pairwise_append.mpr ⟨h.ordered, List.pairwise_singleton _ _, ?_⟩
        intro a ha b hb
        obtain rfl := List.mem_singleton.mp hb
        exact h.ordered_concat hclocked (hevents ▸ List.mem_singleton_self b) htime ha
  | @extraction claim extraction extractedAt completedAt today status rules hoperation hreceiptId
      hnone hstatus =>
      -- the status was null before, so whatever is older tells nothing
      have hquiet := h.unread hnone
      have hextracted : extractedAt ≤ completedAt :=
        hclocked.extractions commit List.mem_cons_self _ _ _ _ _ hoperation hreceiptId
      have hclock : commit.operation.clock = completedAt := by rw [hoperation]; rfl
      refine ⟨hreplays, fun hnone => absurd hnone hstatus, hclockedNow fun event hmem _ => ?_, ?_⟩
      · rw [hclock]
        rcases List.mem_pair.mp hmem with rfl | rfl
        · exact hextracted
        · exact le_rfl
      · refine List.pairwise_append.mpr ⟨h.ordered, ?_, fun a ha b _ => ?_⟩
        · exact List.pairwise_pair.mpr (.inr (LogState.commutes_extracted _ _ _ _ _ _))
        · exact .inr (LogState.commutes_of_not_tells (hquiet a ha) b)

/-- The log of a new receipt records its upload only. -/
theorem Run.logged_of_creates (hrun : Run P employees (commit :: trace))
    (hcreates : commit.Creates x) :
    Logged (commit :: trace) x
      (eventsFor x.receipt.id (current employees (commit :: trace)).auditEvents) := by
  obtain ⟨_, _, _, auditEvents, receiptId, _, _, _, hoperation, rfl, hevents, hfresh⟩ := hcreates
  obtain ⟨hrun', hbefore, hpermitted, -⟩ := hrun.head
  rw [hoperation] at hpermitted
  obtain ⟨call, contentType, now, rfl, -, rfl⟩ := hpermitted
  have hnone : eventsFor receiptId (current employees trace).auditEvents = [] :=
    hrun'.current_refines.eventsFor_eq_nil (hbefore ▸ hfresh)
  rw [hrun.log_cons, show (intake _ _ receiptId _ _).receipt.id = receiptId from rfl, hnone,
    List.nil_append, hevents, eventsFor_eq_self (by simp [AuditEvent.attachTo])]
  refine ⟨rfl, fun _ event hmem => ?_, fun event hmem htells => ?_, List.pairwise_singleton _ _⟩
  · obtain rfl := List.mem_singleton.mp hmem
    rfl
  · obtain rfl := List.mem_singleton.mp hmem
    cases htells

/-- The log of every case of a run, as it is stored. -/
theorem Run.logged (hrun : Run P employees trace) (hx : (current employees trace).HasCase x)
    (hread : ReadsBack trace x.receipt.id) (hclocked : ClockedInOrder x.receipt.id trace) :
    Logged trace x (eventsFor x.receipt.id (current employees trace).auditEvents) := by
  induction trace generalizing x with
  | nil => exact absurd hx.receipt (by simp [current, Database.initial, Database.receiptRow])
  | cons commit trace ih =>
      rcases hrun.created_or_moved hx with hcreates | ⟨y, hy, hmoves⟩
      · exact hrun.logged_of_creates hcreates
      · have hrun' := hrun.head.1
        have hid := hmoves.sameReceipt.id
        rw [hid] at hread hclocked ⊢
        rw [hrun.log_cons]
        have hbefore := ih hrun' hy hread.tail hclocked.tail
        rcases hmoves with ⟨rfl, hquiet⟩ | hstep
        · rw [hquiet, List.append_nil]
          exact hbefore.later
        · have hconsistent := hrun'.consistent hy
          have hsilent : commit.operation.isBatch = true →
              ∀ event ∈ eventsFor y.receipt.id commit.changes.events, event.newStatus = none :=
            fun hbatch event hmem =>
              hrun.silent_of_isBatch hbatch event (List.mem_of_mem_filter hmem)
          have hunread := (hrun'.current_refines.reaches hy).unread
          have hreplayed :=
            hstep.replayed hconsistent hunread (hread.tail.reread hy rfl) hsilent
          exact hbefore.step hclocked hid rfl hreplayed (hstep.records hconsistent hsilent)

/-- The history of a receipt whose data reads back as written tells its status and its data
in every order in which it may be shown, as long as the clocks go on from one change of the
receipt to the next. -/
theorem shown_history_replays (hrun : Run P employees trace) {receipt : Receipt}
    (hreceipt : (current employees trace).receiptRow id = some receipt)
    (hread : ReadsBack trace id) (hclocked : ClockedInOrder id trace) :
    (∀ shown : List AuditEvent, shown.Perm (eventsFor id (current employees trace).auditEvents) →
      shown.Pairwise occurredBefore →
      (shown.map AuditEventResponse.ofEvent).foldlM LogState.read .start =
        some ⟨receipt.status, receipt.currentData⟩) ∧
    ∀ session events, getAuditEvents (current employees trace) session id = .ok events →
      (events.map AuditEventResponse.ofEvent).foldlM LogState.read .start =
        some ⟨receipt.status, receipt.currentData⟩ := by
  have hshown : ∀ shown : List AuditEvent,
      shown.Perm (eventsFor id (current employees trace).auditEvents) →
      shown.Pairwise occurredBefore →
      (shown.map AuditEventResponse.ofEvent).foldlM LogState.read .start =
        some ⟨receipt.status, receipt.currentData⟩ := by
    intro shown hperm hsorted
    have hid := Database.id_of_receiptRow hreceipt
    obtain ⟨x, hx, rfl⟩ := hrun.current_refines.paired.of_receipt hreceipt
    rw [← hid] at hread hclocked hperm
    have hlogged := hrun.logged hx hread hclocked
    rw [LogState.foldlM_read]
    exact (foldlM_eq_of_perm hperm hsorted hlogged.ordered _).trans hlogged.replays
  have htotal : Std.Total occurredBefore := ⟨fun a b => le_total a.occurredAt b.occurredAt⟩
  have htrans : IsTrans AuditEvent occurredBefore := ⟨fun _ _ _ => le_trans⟩
  refine ⟨hshown, fun session events hevents => ?_⟩
  obtain ⟨-, hevents⟩ := getAuditEvents_eq_ok hevents
  rw [hevents]
  exact hshown _ (List.perm_insertionSort _ _) (List.pairwise_insertionSort _ _)

namespace Sample

/-- A duplicate is noted while the image is read. -/
def meanwhileOperations : List Operation :=
  [intakeOf (uploadOf "key-1" imageA) 1 1 0,
    claimAll 1 "token",
    .markDuplicate 1 3 0,
    .completeExtraction (firstClaim 1 "token") ⟨some goodData, [], []⟩ 2 0 4]

def meanwhileTrace : List Commit := (replay platform staff [] meanwhileOperations).getD []

theorem meanwhileTrace_run : Run platform staff meanwhileTrace := by
  refine run_of_replay meanwhileOperations .nil ?_ rfl
  simp only [meanwhileOperations, List.forall_mem_cons]
  exact ⟨intakeOf_permitted .., trivial, trivial, trivial, by simp⟩

theorem meanwhileTrace_clocked : ClockedInOrder 1 meanwhileTrace where
  changes := by decide +kernel
  extractions := by
    have hoperations : meanwhileTrace.map (·.operation) = meanwhileOperations.reverse := rfl
    intro commit hmem claim extraction extractedAt today completedAt hoperation _
    have hlisted : commit.operation ∈ meanwhileOperations.reverse :=
      hoperations ▸ List.mem_map_of_mem hmem
    rw [hoperation] at hlisted
    simp only [meanwhileOperations, intakeOf, claimAll, List.mem_reverse, List.mem_cons,
      reduceCtorEq, false_or, Operation.completeExtraction.injEq, List.not_mem_nil, or_false]
      at hlisted
    obtain ⟨-, -, rfl, -, rfl⟩ := hlisted
    decide

end Sample

open Sample in
/-- The extraction is shown before the duplicate that was committed first. -/
theorem meanwhileTrace_shown :
    ∃ events, getAuditEvents (current staff meanwhileTrace) (login 1 "submitter") 1 = .ok events ∧
      events ≠ eventsFor 1 (current staff meanwhileTrace).auditEvents ∧
      (events.map AuditEventResponse.ofEvent).foldlM LogState.read .start =
        some ⟨some .needsReview, some goodData⟩ := by
  obtain ⟨events, hevents⟩ : ∃ events,
      getAuditEvents (current staff meanwhileTrace) (login 1 "submitter") 1 = .ok events := ⟨_, rfl⟩
  refine ⟨events, hevents, ?_, ?_⟩
  · obtain ⟨-, rfl⟩ := getAuditEvents_eq_ok hevents
    decide +kernel
  · exact (shown_history_replays meanwhileTrace_run rfl (by decide +kernel)
      meanwhileTrace_clocked).2 _ events hevents

end ReceiptReview
