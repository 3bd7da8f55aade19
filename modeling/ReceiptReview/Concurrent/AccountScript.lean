import ReceiptReview.Concurrent.Accounts
import ReceiptReview.Program.Script
import ReceiptReview.System.Replay

/-!
# Scripts of account calls

The requests of the calls are answered as the tables, the locks and the sessions
are; what the database does not decide is given by the script.
-/

namespace ReceiptReview

open Java Store

/-- The time, the next token, the next hash of a password and the next id. -/
structure AccountEnvironment where
  now : Instant
  token : JString
  passwordHash : JString
  id : Long

namespace AccountsState

variable {ι : Type} [DecidableEq ι] {s s' : AccountsState ι} {i : ι}

instance (lock : AccountLock) : Decidable (s.Free i lock) := by
  unfold Free
  infer_instance

/-- Store the row of a transaction. -/
def store? (environment : AccountEnvironment) (i : ι) (s : AccountsState ι)
    (operation : AccountOperation) (row : Account) : Option (Account × AccountsState ι) :=
  if operation.inserts then
    let stored := { row with id := environment.id }
    match s.accounts.insert stored with
    | some accounts' =>
        if Admits s.accounts stored then
          some (stored, (s.add ⟨i, operation, stored, accounts'⟩).leave i)
        else none
    | none => none
  else if s.Free i (.row row.id) then
    match s.accounts.flush [row] with
    | some accounts' =>
        match accounts'.find? row.id with
        | some stored =>
            if Admits s.accounts stored then
              some (stored, (s.add ⟨i, operation, stored, accounts'⟩).leave i)
            else none
        | none => none
    | none => none
  else none

/-- Answer a request of the call `i`, unless it has to wait. -/
def answerTo (environment : AccountEnvironment) (i : ι) (s : AccountsState ι) :
    (request : AccountRequest ι) → Option (request.Answer × AccountsState ι)
  | .loadContext session => some (.ok (s.sessions session), s)
  | .saveContext principal => some (.ok (), s.save i principal)
  | .invalidate session => some (.ok (), s.expire session)
  | .findByLoginId loginId =>
      some (.ok (EmployeeRepository.findByLoginId s.accounts loginId), s.read i)
  | .findById id => some (.ok (s.accounts.find? id), s)
  | .findByIdForUpdate id =>
      if s.Free i (.row id) then some (.ok (s.accounts.find? id), s.acquire i (.row id)) else none
  | .findIdBySetupTokenHash hash =>
      some (.ok (EmployeeRepository.findIdBySetupTokenHash s.accounts hash), s)
  | .lockBootstrap =>
      if s.Free i .bootstrap then some (.ok (some 1), s.acquire i .bootstrap) else none
  | .count => some (.ok s.accounts.rows.length, s)
  | .now => some (.ok environment.now, s)
  | .nextToken => some (.ok environment.token, s)
  | .matchesHash _ _ => some (.ok true, s)
  | .encode _ => some (.ok environment.passwordHash, s)
  | .commit operation row =>
      match store? environment i s operation row with
      | some (stored, s') => some (.ok stored, s')
      | none => some (.error .optimisticLockingFailure, s)
  | .rollback => some (.ok (), s.leave i)

theorem commits_of_store? {environment : AccountEnvironment} {operation : AccountOperation}
    {row stored : Account} (h : store? environment i s operation row = some (stored, s')) :
    s.Commits i operation row stored s' := by
  unfold store? at h
  split at h
  · rename_i hinserts
    simp only at h
    split at h
    · rename_i accounts' hinsert
      split at h
      · rename_i hadmits
        cases h
        exact ⟨fun hnot => absurd (hinserts.symm.trans hnot) (by simp), accounts',
          ⟨hadmits, by rw [if_pos hinserts]; exact ⟨⟨_, rfl⟩, hinsert⟩⟩, rfl⟩
      · exact absurd h (by simp)
    · exact absurd h (by simp)
  · rename_i hinserts
    split at h
    · rename_i hfree
      split at h
      · rename_i accounts' hflush
        split at h
        · rename_i found hfound
          split at h
          · rename_i hadmits
            cases h
            exact ⟨fun _ => hfree, accounts', ⟨hadmits, by
              rw [if_neg hinserts]; exact ⟨hflush, hfound⟩⟩, rfl⟩
          · exact absurd h (by simp)
        · exact absurd h (by simp)
      · exact absurd h (by simp)
    · exact absurd h (by simp)

theorem serves_answerTo (environment : AccountEnvironment) (i : ι) (s : AccountsState ι)
    (request : AccountRequest ι) (answer : request.Answer) (s' : AccountsState ι)
    (h : answerTo environment i s request = some (answer, s')) :
    s.Serves i request answer s' := by
  cases request with
  | findByIdForUpdate id =>
      simp only [answerTo] at h
      split at h
      · rename_i hfree
        cases h
        exact ⟨hfree, rfl, rfl⟩
      · exact absurd h (by simp)
  | lockBootstrap =>
      simp only [answerTo] at h
      split at h
      · rename_i hfree
        cases h
        exact ⟨hfree, rfl⟩
      · exact absurd h (by simp)
  | commit operation row =>
      simp only [answerTo] at h
      split at h
      · rename_i stored s' hstore
        cases h
        exact commits_of_store? hstore
      · cases h
        exact .inl rfl
  | loadContext | findByLoginId | findById | findIdBySetupTokenHash | count =>
      cases h
      exact ⟨rfl, rfl⟩
  | saveContext | invalidate | now | nextToken | matchesHash | encode | rollback =>
      cases h
      rfl

end AccountsState

/-- The pool after a script, from the empty table. -/
def accountsAfter (P : Platform) {ι : Type} [DecidableEq ι] (calls : ι → AccountCall ι)
    (moves : List (Pool.Move ι AccountEnvironment)) : AccountsPool ι :=
  (Pool.script? (fun i => (calls i).program P) AccountsState.answerTo (.initial .start)
    moves).getD (.initial .start)

theorem accountsRun_accountsAfter {P : Platform} {ι : Type} [DecidableEq ι]
    {calls : ι → AccountCall ι} (moves : List (Pool.Move ι AccountEnvironment)) :
    AccountsRun P calls (accountsAfter P calls moves) := by
  have hstart : AccountsRun P calls (.initial .start) := .initial
  unfold accountsAfter
  cases hscript : Pool.script? (fun i => (calls i).program P) AccountsState.answerTo
      (.initial .start) moves with
  | none => exact hstart
  | some pool =>
      exact Pool.Run.later hstart (Pool.steps_of_script rfl (fun _ _ => rfl)
        AccountsState.serves_answerTo hscript)

/-! ## Two administrators -/

namespace Sample

/-- What the environment gives to the calls that concern the account `id`. -/
def accountEnvironment (id : Long) : AccountEnvironment where
  now := 0
  token := .ofString "token"
  passwordHash := .ofString "hash"
  id := id

/-- A call starts and makes its first `count` requests. -/
def begins (i : ℕ) (count : ℕ) (id : Long) : List (Pool.Move ℕ AccountEnvironment) :=
  .start i :: List.replicate count (.serve i (accountEnvironment id))

/-- A call makes its next `count` requests. -/
def continues (i : ℕ) (count : ℕ) (id : Long) : List (Pool.Move ℕ AccountEnvironment) :=
  List.replicate count (.serve i (accountEnvironment id))

def password : JString := .ofString "password-0123"

/-- The first administrator is prepared and issues a second one.  Later each of them
deactivates the other, the first one activates the second again, and the second asks
who it is. -/
def accountCalls : ℕ → AccountCall ℕ
  | 0 => .service none (.bootstrap (.ofString "first") password)
  | 1 => .login ⟨.ofString "first", password⟩
  | 2 => .http (some 1) (.issue ⟨.ofString "second", .ofString "second", .admin⟩)
  | 3 => .http none (.password ⟨.ofString "token", password⟩)
  | 4 => .login ⟨.ofString "second", password⟩
  | 5 => .http (some 1) (.active 2 false)
  | 6 => .http (some 4) (.active 1 false)
  | 7 => .http (some 1) (.active 2 true)
  | _ => .http (some 4) .me

/-- Both administrators have logged in. -/
def administratorsLogIn : List (Pool.Move ℕ AccountEnvironment) :=
  begins 0 4 1 ++ begins 1 3 1 ++ begins 2 5 2 ++ begins 3 5 2 ++ begins 4 3 2

end Sample

end ReceiptReview
