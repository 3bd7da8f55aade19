import ReceiptReview.Concurrent.Calls
import ReceiptReview.Program.Locks

/-!
# Who holds the lock of an image

A call that has acquired the lock of its image and has not released it is a holder
of the lock as long as it lives (`CallsRun.holds`).  While the lock is exclusive it
is the only one (`CallsRun.heldOnce`), so between two requests of a holder no
other call makes a request that needs the lock.
-/

namespace ReceiptReview

open Java Store UploadTranscript

variable {P : Platform} {employees : Table Employee} {ι : Type} {exclusive : Prop}
variable {calls : ι → UploadCall} {base : List Commit} {s s' : CallsState ι}

/-- The lock that a call asks for. -/
def UploadCall.lockKey (P : Platform) (call : UploadCall) : JString :=
  RedisDuplicateReceiptLock.lockKey call.companyId (P.sha256 call.bytes)

def UploadRequest.unlocks : UploadRequest → Bool
  | .unlock _ => true
  | _ => false

/-- What a served request does to the locks: nothing, or its call becomes a holder,
or its call is no longer one. -/
theorem CallsState.Serves.lock_cases {i : ι} {request : UploadRequest} {answer : request.Answer}
    (h : CallsState.Serves P employees exclusive i s request answer s') :
    (s'.holders = s.holders ∧ request.unlocks = false ∧
        ∀ past, Holding ((⟨request, answer⟩ : UploadExchange) :: past) → Holding past) ∨
      (∃ lockKey, request = .tryLock lockKey ∧ s' = s.acquire lockKey i ∧
        (exclusive → ∀ j, ¬ s.holders lockKey j)) ∨
      ∃ lockKey, request = .unlock lockKey ∧ s' = s.release lockKey i := by
  obtain ⟨-, -, h⟩ := h
  cases request with
  | tryLock lockKey =>
      cases answer with
      | error e => exact .inl ⟨congrArg _ h, rfl, fun _ => id⟩
      | ok outcome =>
          cases outcome with
          | acquired => exact .inr (.inl ⟨lockKey, rfl, h.2, h.1⟩)
          | timedOut | interrupted => exact .inl ⟨congrArg _ h, rfl, fun _ => id⟩
  | unlock lockKey => exact .inr (.inr ⟨lockKey, rfl, h⟩)
  -- a transaction commits without touching the locks
  | createQueued =>
      cases answer with
      | error e => exact .inl ⟨congrArg _ h, rfl, fun _ => id⟩
      | ok pair =>
          obtain ⟨commit, -, -, rfl⟩ := h
          exact .inl ⟨rfl, rfl, fun _ => id⟩
  | markDuplicate =>
      cases answer with
      | error e => exact .inl ⟨congrArg _ h, rfl, fun _ => id⟩
      | ok receipt =>
          obtain ⟨commit, -, -, rfl⟩ := h
          exact .inl ⟨rfl, rfl, fun _ => id⟩
  | _ => exact .inl ⟨congrArg CallsState.holders h, rfl, fun _ => id⟩

/-- A call does not take a lock from another. -/
theorem keeps_holders (P : Platform) (employees : Table Employee) (exclusive : Prop)
    (calls : ι → UploadCall) :
    (callsRules P employees exclusive calls).Keeps CallsState.holders UploadRequest.unlocks where
  others hothers hholds := by
    obtain ⟨commit, -, -, -, rfl⟩ := hothers
    exact hholds
  starts hstarts hholds := by
    cases hstarts
    exact hholds
  serves hserves hopen hholds := by
    rcases CallsState.Serves.lock_cases hserves with
      ⟨hsame, -, -⟩ | ⟨lockKey, -, rfl, -⟩ | ⟨lockKey, rfl, rfl⟩
    · rw [hsame]
      exact hholds
    · exact .inl hholds
    · exact ⟨hholds, fun hboth => absurd (hopen hboth.2) (by simp [UploadRequest.unlocks])⟩
  dies hdies hij hholds := by
    cases hdies
    exact ⟨hholds, hij⟩

/-- An exclusive lock is acquired only while nobody holds it. -/
theorem acquiresFree_of_moves (hexclusive : exclusive)
    (hmoves : (callsRules P employees exclusive calls).Moves s s') :
    AcquiresFree s.holders s'.holders := by
  rcases hmoves with ⟨commit, -, -, -, rfl⟩ | ⟨i, hstarts | hdies | ⟨request, answer, hserves⟩⟩
  · exact .refl _
  · cases hstarts
    exact .refl _
  · cases hdies
    exact .of_le fun _ _ => And.left
  · rcases CallsState.Serves.lock_cases hserves with
      ⟨hsame, -, -⟩ | ⟨lockKey, -, rfl, hfree⟩ | ⟨lockKey, -, rfl⟩
    · rw [hsame]
      exact .refl _
    · exact .acquire (fun j hj => absurd hj (hfree hexclusive j)) fun _ _ => id
    · exact .of_le fun _ _ => And.left

variable [DecidableEq ι] {pool : CallsPool ι}

/-- A living call that has acquired the lock holds it. -/
theorem CallsRun.holds (h : CallsRun P employees exclusive calls base pool) {i : ι}
    {past : UploadTranscript} {p : UploadProgram UploadResult}
    (hthread : pool.threads i = some ⟨past, some p⟩) (hholding : Holding past) :
    pool.shared.holders ((calls i).lockKey P) i := by
  refine Pool.Run.holds h (keeps_holders P employees exclusive calls) id ?_ hthread hholding
  intro before after past request next answer hrun hserved hserves hheld
  rcases CallsState.Serves.lock_cases hserves with
    ⟨-, hopen, hbefore⟩ | ⟨lockKey, rfl, hacquired, -⟩ | ⟨lockKey, rfl, -⟩
  · exact .inr ⟨hbefore _ hheld, hopen⟩
  · have hkey : lockKey = (calls i).lockKey P := CallsRun.allowed hrun hserved
    rw [hacquired]
    exact .inl (.inr ⟨hkey.symm, rfl⟩)
  · exact hheld.elim

/-- An exclusive lock has one holder. -/
theorem CallsRun.heldOnce (h : CallsRun P employees exclusive calls base pool)
    (hexclusive : exclusive) : HeldOnce pool.shared.holders := by
  refine Pool.Run.heldOnce h ?_ fun s s' => acquiresFree_of_moves hexclusive
  rintro lockKey i j ⟨⟩

/-- While the lock is exclusive, no two living calls have acquired it. -/
theorem CallsRun.eq_of_holding (h : CallsRun P employees exclusive calls base pool)
    (hexclusive : exclusive) {i j : ι} {past past' : UploadTranscript}
    {p p' : UploadProgram UploadResult} (hi : pool.threads i = some ⟨past, some p⟩)
    (hj : pool.threads j = some ⟨past', some p'⟩) (hholding : Holding past)
    (hholding' : Holding past') (hkey : (calls i).lockKey P = (calls j).lockKey P) : i = j :=
  h.heldOnce hexclusive _ i j (h.holds hi hholding) (hkey ▸ h.holds hj hholding')

end ReceiptReview
