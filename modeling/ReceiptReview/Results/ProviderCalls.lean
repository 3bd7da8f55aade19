import Mathlib.Algebra.Order.BigOperators.Group.List
import ReceiptReview.Results.Attempts
import ReceiptReview.Results.Provenance

/-!
# Calls of the provider

A call of the provider costs money, and the attempts of a job are counted, not its calls.  The
count bounds the calls: an attempt asks the extractor once at most, after the image has passed
the inspection, the extractor posts once at most, and no attempt is made under a claim that
was handed back.
-/

namespace ReceiptReview

open Java Store ReceiptExtractionProcessor

variable {P : Platform} {employees : Table Employee} {claim : ClaimedReceiptJob}

def ProcessRequest.isExtract : ProcessRequest → Bool
  | extract _ => true
  | _ => false

/-- How often the attempt of a transcript has asked the extractor. -/
def extractions (past : ProcessTranscript) : ℕ :=
  past.countP (·.request.isExtract)

/-- Where each request tells of the ones before it, the extractor is asked once. -/
theorem extractions_le_one {past : ProcessTranscript}
    (htells : ∀ exchange older, exchange :: older <:+ past →
      ProcessTells claim older exchange.request) : extractions past ≤ 1 := by
  induction past with
  | nil => exact Nat.zero_le 1
  | cons exchange past ih =>
      have hbefore : extractions past ≤ 1 := ih fun other older hsuffix =>
        htells other older (hsuffix.trans (List.suffix_cons _ _))
      have hhead := htells exchange past List.suffix_rfl
      obtain ⟨request, answer⟩ := exchange
      cases request with
      | extract request =>
          obtain ⟨image, quality, -, -, rfl⟩ := hhead
          exact le_rfl
      | _ => exact hbefore

namespace OpenAiReceiptExtractor

/-- A request of the extractor is answered in any way, and the calls are counted. -/
def Counts (posts : ℕ) (request : ExtractorRequest) (_ : request.Answer) (posts' : ℕ) : Prop :=
  match request with
  | .post _ => posts' = posts + 1
  | .readValue _ => posts' = posts

/-- Whatever the provider and the mapper answer, the provider is called once. -/
theorem wp_extract_counts (properties : OpenAi) (request : ExtractionRequest) :
    Program.wp Counts Eq (extract properties request) (fun _ posts => posts ≤ 1) 0 := by
  unfold extract
  by_cases hkey : properties.apiKey.isBlank
  · rw [if_pos hkey]
    exact Nat.zero_le 1
  · rw [if_neg hkey]
    rintro _ rfl outcome _ rfl
    cases outcome with
    | response response =>
        show Program.wp _ Eq (readResponse properties response) _ _
        unfold readResponse
        cases htext : findOutputText response with
        | error e => exact le_rfl
        | ok outputText =>
            rintro _ rfl outcome _ rfl
            cases outcome <;> exact le_rfl
    | responseException | resourceAccessException | restClientException | exception =>
        exact le_rfl

end OpenAiReceiptExtractor

/-! ## Runs -/

section Pipeline

variable {ι : Type} [DecidableEq ι] {collaborators : Collaborators} {exclusive : Prop}
variable {calls : ι → UploadCall} {bucket : Bucket} {pool pool' : PipelinePool ι}

/-- An attempt that starts has a claim that was not handed back. -/
theorem WorkerStep.not_handedBack {pool pool' : WorkerPool}
    (hstep : Pool.Step (workerRules P employees) pool pool')
    (hstarted : pool'.shared.started = claim :: pool.shared.started) :
    ¬ HandedBack pool.shared.trace claim := by
  have hchanged : pool'.shared.started ≠ pool.shared.started := by
    rw [hstarted]
    exact List.cons_ne_self _ _
  cases hstep with
  | others hothers => exact absurd hothers.2.2 hchanged
  | start _ hstarts =>
      obtain ⟨-, hback, rfl⟩ := hstarts
      obtain ⟨rfl, -⟩ := List.cons.inj hstarted
      exact hback
  | die _ hdies => exact absurd (congrArg WorkerState.started hdies) hchanged
  | @serve claim past request next answer s' hthread hserves =>
      unfold workerRules WorkerState.Serves at hserves
      cases answer with
      | error e => exact absurd (congrArg WorkerState.started hserves) hchanged
      | ok result =>
          cases hreply : request.reply? result with
          | none =>
              simp only [hreply] at hserves
              exact absurd (congrArg WorkerState.started hserves) hchanged
          | some reply =>
              simp only [hreply] at hserves
              exact absurd hserves.2 hchanged

/-- A claim that was handed back is not among those whose attempt has started. -/
theorem WorkerRun.not_handedBack {pool : WorkerPool} (h : WorkerRun P employees pool)
    (hstarted : claim ∈ pool.shared.started) : ¬ HandedBack pool.shared.trace claim := by
  induction h with
  | initial => exact absurd hstarted List.not_mem_nil
  | @step pool pool' hrun hstep ih =>
      -- a commit that releases nothing hands nothing back
      have hkept : ∀ {commit : Commit}, claim ∈ pool.shared.started →
          (∀ now, commit.operation ≠ .release claim now) →
          ¬ HandedBack (commit :: pool.shared.trace) claim := by
        rintro commit hstarted hother ⟨commit', hmem, now, hrelease⟩
        rcases List.mem_cons.mp hmem with rfl | hmem
        · exact hother now hrelease
        · exact ih hstarted ⟨commit', hmem, now, hrelease⟩
      cases WorkerRun.step_cases hrun hstep with
      | quiet hshared =>
          rw [hshared] at hstarted ⊢
          exact ih hstarted
      | started claim' _ _ hshared =>
          rw [hshared] at hstarted ⊢
          rcases List.mem_cons.mp hstarted with rfl | hstarted
          · exact WorkerStep.not_handedBack hstep (by rw [hshared])
          · exact ih hstarted
      | other commit hshared _ _ hclaims =>
          rw [hshared] at hstarted ⊢
          -- a claim whose attempt has started is not released by others
          refine hkept hstarted fun now hrelease => (hclaims claim ?_).2 hstarted
          rw [hrelease]
          rfl
      | served commit claim' past request hshared _ _ _ hruns =>
          rw [hshared] at hstarted ⊢
          refine hkept hstarted fun now hrelease => ?_
          -- an attempt releases no claim
          have hof := ProcessRequest.isOfProcess_of_runs hruns
          rw [hrelease] at hof
          cases hof

/-- In every run of the pipeline the extractor was asked for a job no more often than the job
counts attempts, and each time the provider was called at most once; nothing was asked under a
claim that no worker has got, or that was handed back. -/
theorem provider_calls_within_attempts
    (h : PipelineRun P employees collaborators exclusive calls bucket pool) {id : Long}
    {job : ReceiptExtractionJob}
    (hjob : (current employees pool.shared.trace).findJob id = some job) :
    (((handedOut pool.shared.trace).filter (·.jobId = id)).map
        fun claim => extractions (pool.past claim)).sum ≤ job.attemptCount ∧
      (∀ claim, pool.past claim ≠ [] →
        HandedOut pool.shared.trace claim ∧ ¬ HandedBack pool.shared.trace claim) ∧
      ∀ request outcome posts, Program.Executes OpenAiReceiptExtractor.Counts Eq 0
        (OpenAiReceiptExtractor.extract collaborators.openAi request) outcome posts →
          posts ≤ 1 := by
  obtain rfl : job.id = id := Database.id_of_findJob hjob
  obtain ⟨x, hx, rfl⟩ := h.run.current_refines.paired.of_job hjob
  refine ⟨?_, fun claim hpast => ?_, fun request outcome posts hexec =>
    Program.wp_iff.mp (OpenAiReceiptExtractor.wp_extract_counts _ _) _ _ hexec⟩
  · -- one attempt for each claim that was handed out, and one extraction each
    rw [h.run.attemptCount_eq hx, claimsOf, List.countP_eq_length_filter]
    refine (List.sum_le_card_nsmul _ 1 ?_).trans (by simp)
    intro count hcount
    obtain ⟨claim, -, rfl⟩ := List.mem_map.mp hcount
    have htells : ∀ exchange older, exchange :: older <:+ pool.past claim →
        ProcessTells claim older exchange.request := by
      intro exchange older hsuffix
      obtain ⟨before, after, hserved⟩ := h.served hsuffix
      exact hserved.tells
    exact extractions_le_one htells
  · have hstarted : claim ∈ pool.shared.started := by
      refine (h.workers.mem_started claim).mpr fun hnone => hpast ?_
      rw [Pool.threads_map] at hnone
      rw [Pool.past, hnone]
      rfl
    exact ⟨h.workers.supervised.handed claim hstarted, h.workers.not_handedBack hstarted⟩

end Pipeline

open Sample in
/-- After its one attempt the image of the first receipt was extracted once at most. -/
theorem attempted_once :
    ∃ pool : PipelinePool Bool,
      PipelineRun imagePlatform staff collaborators False imageCalls (fun _ => none) pool ∧
      (((handedOut pool.shared.trace).filter (·.jobId = 1)).map
        fun claim => extractions (pool.past claim)).sum ≤ 1 := by
  obtain ⟨pool, hrun, htrace, -⟩ := attempted_run false
  have hstored : ((current staff (attempted false).2.calls.trace).findJob 1).map
      ReceiptExtractionJob.attemptCount = some 1 := by decide +kernel
  rw [← htrace] at hstored
  obtain ⟨job, hjob, hattempts⟩ := Option.map_eq_some_iff.mp hstored
  refine ⟨pool, hrun, ?_⟩
  rw [← hattempts]
  exact (provider_calls_within_attempts hrun hjob).1

end ReceiptReview
