import Mathlib.Data.Prod.Lex
import ReceiptReview.Lifecycle.Runs
import ReceiptReview.Store.Line

/-!
# Queues of jobs

The worker takes batches of jobs out of the table in two places: a claim takes waiting jobs,
the recovery takes jobs whose lease has run out.  Both sort the rows by a moment and the id,
leave out what others have locked, and take the first ones.

A `QueueRule` says which jobs wait for such an operation and since when; it makes a `JobQueue`
when jobs join under the present moment and batches are taken from the front.  In every run the
jobs of a queue are a line, and each commit is a step of it.
-/

namespace ReceiptReview

open Java Store ReceiptCase

variable {P : Platform} {employees : Table Employee} {trace later : List Commit}
variable {commit : Commit} {operation : Operation} {x x' : ReceiptCase} {events : List AuditEvent}
variable {db : Database} {job job' : ReceiptExtractionJob}

/-- What the clock shows when the operation writes. -/
def Operation.clock : Operation → Instant
  | createQueued _ _ _ _ _ _ now _ => now
  | claimAvailable _ _ _ now _ _ => now
  | release _ now => now
  | recoverExpired _ now _ => now
  | completeQualityRejection _ _ now => now
  | completeExtraction _ _ _ _ now => now
  | scheduleRetry _ _ _ _ now => now
  | failExtraction _ _ _ now => now
  | markDuplicate _ now _ => now
  | correctFields _ _ _ _ _ now => now
  | decide _ _ _ _ _ now => now

/-- Which jobs wait, since when, and which operations take them: in batches of which size, with
which rows locked by others. -/
structure QueueRule where
  waits : ReceiptExtractionJob → Bool
  since : ReceiptExtractionJob → Instant
  batch : Operation → Option (ℤ × List Long)

namespace QueueRule

variable (rule : QueueRule)

/-- The place of a job: the rows are sorted by a moment and the id. -/
def place (job : ReceiptExtractionJob) : ℤ ×ₗ ℤ :=
  toLex (rule.since job, job.id)

/-- The places of the jobs that wait. -/
def line (db : Database) : Finset (ℤ ×ₗ ℤ) :=
  ((db.jobs.rows.filter rule.waits).map rule.place).toFinset

/-- The rows that an operation takes when it could take this job: the job is among them, or
they are a full batch from before it. -/
structure Selects (db : Database) (changes : Database.Changes) (batchSize : ℤ)
    (job : ReceiptExtractionJob) (selected : List ReceiptExtractionJob) : Prop where
  written : changes.jobs.map ReceiptExtractionJob.id = selected.map ReceiptExtractionJob.id
  nodup : (selected.map ReceiptExtractionJob.id).Nodup
  waiting : ∀ taken ∈ selected, taken ∈ db.jobs.rows ∧ rule.waits taken = true
  inOrder : job ∈ selected ∨ selected.length = batchSize.toNat ∧
    ∀ taken ∈ selected, rule.place taken < rule.place job

/-- How many jobs the commit takes that could have taken this one: it has read the current
rows, as a locking read does, and has not found the job locked. -/
def passesOver (commit : Commit) (jobId : Long) : ℕ :=
  match rule.batch commit.operation with
  | some (batchSize, locked) =>
      if jobId ∉ locked ∧
          commit.operation.body commit.before = .ok (commit.reply, commit.changes) then
        batchSize.toNat
      else 0
  | none => 0

variable {rule}

/-- A query that sorts the rows by their places and takes the first of them. -/
theorem selects_take {changes : Database.Changes} {batchSize : ℤ}
    {r : ReceiptExtractionJob → ReceiptExtractionJob → Prop} [DecidableRel r]
    (hr : ∀ {a b}, r a b ↔ rule.place a ≤ rule.place b) {p : ReceiptExtractionJob → Bool}
    (hp : ∀ {row}, p row = true → rule.waits row = true) (hrow : job ∈ db.jobs.rows)
    (hjob : p job = true)
    (hwritten : changes.jobs.map ReceiptExtractionJob.id =
      (((db.jobs.rows.filter p).insertionSort r).take batchSize.toNat).map
        ReceiptExtractionJob.id) :
    rule.Selects db changes batchSize job
      (((db.jobs.rows.filter p).insertionSort r).take batchSize.toNat) := by
  have : Std.Total r := ⟨fun a b => by rw [hr, hr]; exact le_total _ _⟩
  have : IsTrans ReceiptExtractionJob r := ⟨fun a b c hab hbc => by
    rw [hr] at hab hbc ⊢
    exact hab.trans hbc⟩
  have hrows : ∀ taken ∈ ((db.jobs.rows.filter p).insertionSort r).take batchSize.toNat,
      taken ∈ db.jobs.rows ∧ p taken = true := by
    intro taken hmem
    have hsorted := List.mem_of_mem_take hmem
    rwa [List.mem_insertionSort, List.mem_filter] at hsorted
  refine ⟨hwritten, ?_, fun taken hmem => ⟨(hrows taken hmem).1, hp (hrows taken hmem).2⟩, ?_⟩
  · refine ((List.take_sublist _ _).map _).nodup ?_
    refine ((List.perm_insertionSort _ _).map _).nodup_iff.mpr ?_
    exact (List.filter_sublist.map _).nodup db.jobs.keys_nodup
  · rw [or_iff_not_imp_left]
    intro hout
    obtain ⟨hfull, hbefore⟩ :=
      Line.take_insertionSort_of_not_mem (List.mem_filter.mpr ⟨hrow, hjob⟩) hout
    refine ⟨hfull, fun taken hmem => lt_of_le_of_ne (hr.mp (hbefore taken hmem)) ?_⟩
    intro hplace
    -- rows have different ids
    have hsame : taken = job := List.inj_on_of_nodup_map db.jobs.keys_nodup (hrows taken hmem).1
      hrow (congrArg (fun place => (ofLex place).2) hplace)
    exact hout (hsame ▸ hmem)

end QueueRule

structure JobQueue extends QueueRule where
  /-- Who waits after a step has waited before it in the same place, or joins now. -/
  joins : ∀ {employees operation x events x'}, Step employees operation x events x' →
    (∃ db answer, operation.body db = .ok answer) → waits x'.job = true →
      waits x.job = true ∧ since x'.job = since x.job ∨
        waits x.job = false ∧ operation.clock ≤ since x'.job
  created : ∀ {receipt imageStorageKey receiptId jobId now},
    waits (intake receipt imageStorageKey receiptId jobId now).job = true →
      now ≤ since (intake receipt imageStorageKey receiptId jobId now).job
  /-- Who is taken waits no more. -/
  leaves : ∀ {employees operation x events x' batchSize locked},
    Step employees operation x events x' → batch operation = some (batchSize, locked) →
      waits x'.job = false
  selects : ∀ {operation : Operation} {db reply changes batchSize locked job},
    operation.body db = .ok (reply, changes) → batch operation = some (batchSize, locked) →
      job ∈ db.jobs.rows → waits job = true → since job < operation.clock → job.id ∉ locked →
        ∃ selected, toQueueRule.Selects db changes batchSize job selected

namespace JobQueue

variable {queue : JobQueue}

theorem id_of_place (h : queue.place job = queue.place job') : job.id = job'.id :=
  congrArg (fun place => (ofLex place).2) h

theorem since_of_place (h : queue.place job = queue.place job') :
    queue.since job = queue.since job' :=
  congrArg (fun place => (ofLex place).1) h

theorem mem_line_iff {place : ℤ ×ₗ ℤ} :
    place ∈ queue.line db ↔
      ∃ job ∈ db.jobs.rows, queue.waits job = true ∧ queue.place job = place := by
  simp only [QueueRule.line, List.mem_toFinset, List.mem_map, List.mem_filter, and_assoc]

theorem mem_line (hx : db.HasCase x) (hwaits : queue.waits x.job = true) :
    queue.place x.job ∈ queue.line db :=
  mem_line_iff.mpr ⟨x.job, Table.mem_of_find? hx.job, hwaits, rfl⟩

theorem exists_of_mem_line (hdb : db.Paired) {place : ℤ ×ₗ ℤ} (h : place ∈ queue.line db) :
    ∃ x, db.HasCase x ∧ queue.waits x.job = true ∧ queue.place x.job = place := by
  obtain ⟨job, hmem, hwaits, hplace⟩ := mem_line_iff.mp h
  obtain ⟨x, hx, rfl⟩ := hdb.of_job (Table.find?_of_mem hmem)
  exact ⟨x, hx, hwaits, hplace⟩

/-! ## What a commit does to the line -/

/-- A place before the job was in the line already, if the commit writes later moments than
the job's: whoever joins comes behind it. -/
theorem mem_line_before (h : Run P employees (commit :: trace))
    (hclock : queue.since job < commit.operation.clock) {place : ℤ ×ₗ ℤ}
    (hmem : place ∈ queue.line commit.after) (hlt : place < queue.place job) :
    place ∈ queue.line (current employees trace) := by
  have hbehind : ∀ {other : ReceiptExtractionJob}, commit.operation.clock ≤ queue.since other →
      ¬ queue.place other < queue.place job := by
    intro other hlate
    rw [not_lt, QueueRule.place, QueueRule.place]
    exact (Prod.Lex.toLex_lt_toLex.mpr (.inl (lt_of_lt_of_le hclock hlate))).le
  obtain ⟨x', hx', hwaits, rfl⟩ := exists_of_mem_line h.current_refines.paired hmem
  rcases h.created_or_moved hx' with hcreates | ⟨x, hx, ⟨rfl, -⟩ | hstep⟩
  · obtain ⟨_, _, _, _, _, _, createdAt, _, hoperation, rfl, -⟩ := hcreates
    rw [hoperation] at hbehind
    exact absurd hlt (hbehind (queue.created hwaits))
  · exact mem_line hx hwaits
  · obtain ⟨-, -, -, -, snapshot, -, hbody⟩ := h.head
    rcases queue.joins hstep ⟨_, _, hbody⟩ hwaits with ⟨hbefore, hsince⟩ | ⟨-, hlate⟩
    · have hplace : queue.place x'.job = queue.place x.job := by
        rw [QueueRule.place, QueueRule.place, hsince, hstep.sameJob.id]
      exact hplace ▸ mem_line hx hbefore
    · exact absurd hlt (hbehind hlate)

/-- A job whose row is written by an operation that takes jobs waits no more. -/
theorem taken_of_written (h : Run P employees (commit :: trace)) {batchSize : ℤ}
    {locked : List Long} (hbatch : queue.batch commit.operation = some (batchSize, locked))
    (hx : (current employees trace).HasCase x)
    (hwritten : x.job.id ∈ commit.changes.jobs.map ReceiptExtractionJob.id) :
    ∃ x', commit.after.HasCase x' ∧ x'.job.id = x.job.id ∧ queue.waits x'.job = false := by
  obtain ⟨written, hmem, hid⟩ := List.mem_map.mp hwritten
  rcases h.kept_or_updated hx with ⟨-, -, huntouched⟩ | ⟨hafter, hstep⟩
  · exact absurd hid (huntouched written hmem)
  · exact ⟨_, hafter, hstep.sameJob.id, queue.leaves hstep hbatch⟩

/-- While a job goes on waiting, each commit serves jobs before it. -/
theorem serves (h : Run P employees (commit :: trace))
    (hx : (current employees trace).HasCase x) (hwaits : queue.waits x.job = true)
    (hx' : commit.after.HasCase x') (hid : x'.job.id = x.job.id)
    (hwaits' : queue.waits x'.job = true) (hclock : queue.since x.job < commit.operation.clock) :
    Line.Serves (queue.place x.job) (queue.passesOver commit x.job.id)
      (queue.line (current employees trace)) (queue.line commit.after) := by
  have hbefore : commit.before = current employees trace := h.head.2.1
  have hkeeps : ∀ place ∈ queue.line commit.after, place < queue.place x.job →
      place ∈ queue.line (current employees trace) := fun place => mem_line_before h hclock
  have hnothing : Line.Serves (queue.place x.job) 0 (queue.line (current employees trace))
      (queue.line commit.after) :=
    ⟨∅, Finset.empty_subset _, Finset.card_empty, by simp, by simpa using hkeeps⟩
  unfold QueueRule.passesOver
  split
  · rename_i batchSize locked hbatch
    split
    · rename_i hpasses
      obtain ⟨hunlocked, hreads⟩ := hpasses
      rw [hbefore] at hreads
      obtain ⟨selected, hselected⟩ := queue.selects hreads hbatch (Table.mem_of_find? hx.job)
        hwaits hclock hunlocked
      have htaken : ∀ taken ∈ selected, ∀ y, commit.after.HasCase y → y.job.id = taken.id →
          queue.waits y.job = false := by
        intro taken hmem y hy hyid
        obtain ⟨z, hz, rfl⟩ := h.head.1.current_refines.paired.of_job
          (Table.find?_of_mem (hselected.waiting taken hmem).1)
        obtain ⟨z', hz', hzid, hserved⟩ := taken_of_written h hbatch hz
          (hselected.written ▸ List.mem_map_of_mem hmem)
        rw [hy.eq_of_jobId hz' (hyid.trans hzid.symm)]
        exact hserved
      obtain ⟨hfull, hahead⟩ := hselected.inOrder.resolve_left fun hmem =>
        absurd hwaits' (by simp [htaken x.job hmem x' hx' hid])
      have hnodup : (selected.map queue.place).Nodup := by
        refine List.Nodup.of_map (fun place => (ofLex place).2) ?_
        rw [List.map_map]
        exact hselected.nodup
      refine ⟨(selected.map queue.place).toFinset, ?_, ?_, ?_, ?_⟩
      · intro place hplace
        obtain ⟨taken, hmem, rfl⟩ := List.mem_map.mp (List.mem_toFinset.mp hplace)
        obtain ⟨hrow, hwaiting⟩ := hselected.waiting taken hmem
        exact mem_line_iff.mpr ⟨taken, hrow, hwaiting, rfl⟩
      · rw [List.toFinset_card_of_nodup hnodup, List.length_map, hfull]
      · intro place hplace
        obtain ⟨taken, hmem, rfl⟩ := List.mem_map.mp (List.mem_toFinset.mp hplace)
        exact hahead taken hmem
      · intro place hmem hlt
        refine Finset.mem_sdiff.mpr ⟨hkeeps place hmem hlt, fun hplace => ?_⟩
        -- the place would be that of a job that was taken
        obtain ⟨taken, htakenMem, rfl⟩ := List.mem_map.mp (List.mem_toFinset.mp hplace)
        obtain ⟨y, hy, hyWaits, hyPlace⟩ := exists_of_mem_line h.current_refines.paired hmem
        exact absurd hyWaits (by simp [htaken taken htakenMem y hy (id_of_place hyPlace)])
    · exact hnothing
  · exact hnothing

/-! ## Runs -/

/-- At some moment of the run after `trace` the job does not wait. -/
def LeftSince (rule : QueueRule) (employees : Table Employee) (trace later : List Commit)
    (jobId : Long) : Prop :=
  ∃ moment, trace <:+ moment ∧ moment <:+ later ++ trace ∧
    ∃ x, (current employees moment).HasCase x ∧ x.job.id = jobId ∧ rule.waits x.job = false

theorem LeftSince.cons {rule : QueueRule} {jobId : Long}
    (h : LeftSince rule employees trace later jobId) (commit : Commit) :
    LeftSince rule employees trace (commit :: later) jobId := by
  obtain ⟨moment, hsince, hmoment, hleft⟩ := h
  exact ⟨moment, hsince, hmoment.trans (List.suffix_cons _ _), hleft⟩

/-- A job that waits has left the queue at some moment of the run, or the line has passed it. -/
theorem left_or_passed (queue : JobQueue) (h : Run P employees (later ++ trace))
    (hx : (current employees trace).HasCase x) (hwaits : queue.waits x.job = true)
    (hclock : ∀ commit ∈ later, queue.since x.job < commit.operation.clock) :
    LeftSince queue.toQueueRule employees trace later x.job.id ∨
      ∃ x', (current employees (later ++ trace)).HasCase x' ∧ x'.job.id = x.job.id ∧
        queue.waits x'.job = true ∧ queue.place x'.job = queue.place x.job ∧
        Line.Passing (queue.place x.job) (later.map (queue.passesOver · x.job.id)).sum
          (queue.line (current employees trace))
          (queue.line (current employees (later ++ trace))) := by
  induction later with
  | nil => exact .inr ⟨x, hx, rfl, hwaits, rfl, .refl⟩
  | cons commit later ih =>
      rcases ih h.head.1 fun c hc => hclock c (List.mem_cons_of_mem _ hc) with
        hleft | ⟨y, hy, hyid, hyWaits, hyPlace, hpassing⟩
      · exact .inl (hleft.cons commit)
      · obtain ⟨x', hx', hmoves⟩ := h.exists_moved hy
        have hid : x'.job.id = x.job.id := hmoves.sameJob.id.trans hyid
        -- the commit takes the job out, or the line has moved and the job keeps its place
        cases hwaits' : queue.waits x'.job with
        | false => exact .inl ⟨commit :: later ++ trace, List.suffix_append _ _, List.suffix_rfl,
            x', hx', hid, hwaits'⟩
        | true =>
            have hplace : queue.place x'.job = queue.place y.job := by
              rcases hmoves with ⟨rfl, -⟩ | hstep
              · rfl
              · obtain ⟨-, -, -, -, snapshot, -, hbody⟩ := h.head
                rcases queue.joins hstep ⟨_, _, hbody⟩ hwaits' with ⟨-, hsince⟩ | ⟨hnot, -⟩
                · rw [QueueRule.place, QueueRule.place, hsince, hstep.sameJob.id]
                · exact absurd hyWaits (by simp [hnot])
            have hserves := serves h hy hyWaits hx' hmoves.sameJob.id hwaits'
              (since_of_place hyPlace ▸ hclock commit List.mem_cons_self)
            rw [hyPlace, hyid] at hserves
            refine .inr ⟨x', hx', hid, hwaits', hplace.trans hyPlace, ?_⟩
            rw [List.map_cons, List.sum_cons]
            exact .step hpassing hserves

end JobQueue

end ReceiptReview
