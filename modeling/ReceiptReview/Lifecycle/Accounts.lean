import ReceiptReview.Service.Accounts

/-!
# The lives of the accounts

The abstract view of the accounts: a history of commits, each of which creates an
account or takes one stored account a step (`Account.Step`).  Nothing here mentions
calls, locks or snapshots; `Concurrent/Accounts.lean` shows that whatever the calls
do, what they commit is such a history.

No step changes whose account it is, its role, or a password that is there.  The
session version grows with a deactivation and only then, so it tells whether there
was one (`AccountHistory.revoked_or_kept`).
-/

namespace ReceiptReview

open Java Store EmployeeService

variable {P : Platform} {ι : Type}

/-! ## Steps of an account -/

namespace Account

/-- An account as it is created. -/
inductive Created (P : Platform) : AccountOperation → Account → Prop
  | issued {loginId name token : JString} {role : EmployeeRole} {expires : Instant} {id : Long} :
      Created P (.issue token)
        { (Account.new loginId name role).invite (hash P token) expires with id }
  | bootstrapped {loginId name passwordHash : JString} {id : Long} :
      Created P .bootstrap { (Account.new loginId name .admin).setPassword passwordHash with id }

/-- What a transaction does to a stored account, with all that it has checked. -/
inductive Step (P : Platform) : AccountOperation → Account → Account → Prop
  | reissued {account : Account} {token : JString} {expires : Instant} :
      account.passwordHash = none → account.active = true →
      Step P (.reissueSetupToken token) account (account.invite (hash P token) expires)
  | passwordSet {account : Account} {token passwordHash : JString} :
      acceptsToken account (hash P token) = true →
      Step P (.setPassword token) account (account.setPassword passwordHash)
  | activated {account : Account} {active : Bool} {actorId : Long} :
      (active = false → account.id ≠ actorId) →
      Step P (.active active actorId) account (account.setActive active)

/-- What stays of an account once it is stored. -/
structure Continues (a b : Account) : Prop where
  id : b.id = a.id
  loginId : b.loginId = a.loginId
  role : b.role = a.role
  passwordHash : a.passwordHash ≠ none → b.passwordHash = a.passwordHash

theorem Continues.refl (a : Account) : Continues a a :=
  ⟨rfl, rfl, rfl, fun _ => rfl⟩

theorem Continues.trans {a b c : Account} (hab : Continues a b) (hbc : Continues b c) :
    Continues a c where
  id := hbc.id.trans hab.id
  loginId := hbc.loginId.trans hab.loginId
  role := hbc.role.trans hab.role
  passwordHash hset :=
    calc c.passwordHash
        = b.passwordHash := hbc.passwordHash (by rwa [hab.passwordHash hset])
      _ = a.passwordHash := hab.passwordHash hset

theorem acceptsToken_iff {account : Account} {tokenHash : JString} :
    acceptsToken account tokenHash = true ↔ account.setupTokenHash = some tokenHash ∧
      account.active = true ∧ account.passwordHash = none := by
  simp [acceptsToken, hasSetupToken, and_assoc]

variable {operation : AccountOperation} {a b : Account}

theorem Step.continues (h : Step P operation a b) : Continues a b := by
  cases h with
  | reissued => exact ⟨rfl, rfl, rfl, fun _ => rfl⟩
  | passwordSet haccepts =>
      -- a password is chosen where there is none
      obtain ⟨-, -, hnone⟩ := acceptsToken_iff.mp haccepts
      exact ⟨rfl, rfl, rfl, fun hset => absurd hnone hset⟩
  | activated => exact ⟨rfl, rfl, rfl, fun _ => rfl⟩

theorem Step.version (h : Step P operation a b) : b.version = a.version := by
  cases h <;> rfl

/-- A step deactivates the account and revokes its sessions, or it does neither. -/
theorem Step.revokes_or_keeps (h : Step P operation a b) :
    a.active = true ∧ b.active = false ∧ b.sessionVersion = a.sessionVersion + 1 ∨
      (a.active = true → b.active = true) ∧ b.sessionVersion = a.sessionVersion := by
  cases h with
  | reissued | passwordSet => exact .inr ⟨fun hactive => hactive, rfl⟩
  | @activated _ active =>
      cases hactive : a.active <;> cases active <;> simp [setActive, hactive]

end Account

/-! ## Histories -/

/-- A transaction that was committed, with the call that has made it, the row it
has stored and the table after it. -/
structure AccountCommit (ι : Type) where
  author : ι
  operation : AccountOperation
  row : Account
  accounts : Table Account

/-- The table after a history, whose newest commit comes first. -/
def accountsAt : List (AccountCommit ι) → Table Account
  | [] => .empty
  | commit :: _ => commit.accounts

/-- The unique constraints. -/
def Admits (accounts : Table Account) (row : Account) : Prop :=
  ∀ other ∈ accounts.rows, other.id ≠ row.id →
    other.loginId ≠ row.loginId ∧
      (row.setupTokenHash ≠ none → other.setupTokenHash ≠ row.setupTokenHash)

instance (accounts : Table Account) (row : Account) : Decidable (Admits accounts row) := by
  unfold Admits
  infer_instance

inductive AccountHistory (P : Platform) : List (AccountCommit ι) → Prop
  | nil : AccountHistory P []
  | created {history : List (AccountCommit ι)} {commit : AccountCommit ι} :
      AccountHistory P history → Account.Created P commit.operation commit.row →
      Admits (accountsAt history) commit.row →
      (accountsAt history).insert commit.row = some commit.accounts →
      AccountHistory P (commit :: history)
  | updated {history : List (AccountCommit ι)} {commit : AccountCommit ι}
      {before changed : Account} :
      AccountHistory P history → (accountsAt history).find? changed.id = some before →
      Account.Step P commit.operation before changed →
      (accountsAt history).flush [changed] = some commit.accounts →
      commit.row = { changed with version := before.version + 1 } →
      AccountHistory P (commit :: history)

variable {history earlier : List (AccountCommit ι)} {commit : AccountCommit ι}

/-- The rows after one row was written back. -/
theorem find?_flush_singleton {t t' : Table Account} {before changed : Account}
    (hflush : t.flush [changed] = some t') (hbefore : t.find? changed.id = some before)
    (id : Long) :
    t'.find? id =
      if id = changed.id then some { changed with version := before.version + 1 }
      else t.find? id := by
  rw [Table.find?_flush hflush]
  split
  · rename_i hid
    subst hid
    have hkey : before.id = changed.id := Table.key_of_find? hbefore
    rw [hbefore]
    exact congrArg some (Table.updated_singleton_self hkey.symm)
  · rename_i hid
    cases hfound : t.find? id with
    | none => rfl
    | some other =>
        have hkey : other.id = id := Table.key_of_find? hfound
        have hother : changed.id ≠ other.id := fun heq => hid (heq.trans hkey).symm
        simp [Table.updated, hother]

/-- What a commit does to the stored accounts: it adds one, or one takes a step. -/
theorem AccountHistory.cases_cons (h : AccountHistory P (commit :: history)) :
    AccountHistory P history ∧
      (Account.Created P commit.operation commit.row ∧
          Admits (accountsAt history) commit.row ∧
          (accountsAt history).find? commit.row.id = none ∧
          (∀ id, commit.accounts.find? id =
            if id = commit.row.id then some commit.row else (accountsAt history).find? id) ∨
        ∃ before changed, (accountsAt history).find? changed.id = some before ∧
          Account.Step P commit.operation before changed ∧
          commit.row = { changed with version := before.version + 1 } ∧
          ∀ id, commit.accounts.find? id =
            if id = changed.id then some commit.row else (accountsAt history).find? id) := by
  cases h with
  | created hhistory hcreated hadmits hinsert =>
      exact ⟨hhistory, .inl ⟨hcreated, hadmits, (Table.find?_insert_self hinsert).1,
        fun id => Table.find?_insert hinsert id⟩⟩
  | @updated _ _ before changed hhistory hbefore hstep hflush hrow =>
      refine ⟨hhistory, .inr ⟨before, changed, hbefore, hstep, hrow, fun id => ?_⟩⟩
      rw [hrow]
      exact find?_flush_singleton hflush hbefore id

/-- An account that was committed is not removed. -/
theorem AccountHistory.eq_nil_of_rows (h : AccountHistory P history)
    (hrows : (accountsAt history).rows.length = 0) : history = [] := by
  cases history with
  | nil => rfl
  | cons commit history =>
      have hstored : ∃ id, commit.accounts.find? id = some commit.row := by
        obtain ⟨-, ⟨-, -, -, hfound⟩ | ⟨before, changed, -, -, -, hfound⟩⟩ := h.cases_cons
        · exact ⟨commit.row.id, by rw [hfound, if_pos rfl]⟩
        · exact ⟨changed.id, by rw [hfound, if_pos rfl]⟩
      obtain ⟨id, hid⟩ := hstored
      have hnone : commit.accounts.rows = [] := List.eq_nil_of_length_eq_zero hrows
      have hmem := Table.mem_of_find? hid
      rw [hnone] at hmem
      exact absurd hmem List.not_mem_nil

/-- The first commit creates its account. -/
theorem AccountHistory.created_first (h : AccountHistory P [commit]) :
    Account.Created P commit.operation commit.row := by
  obtain ⟨-, ⟨hcreated, -⟩ | ⟨before, changed, hbefore, -⟩⟩ := h.cases_cons
  · exact hcreated
  · exact absurd hbefore (by simp [accountsAt])

theorem AccountHistory.suffix (h : AccountHistory P history) (hearlier : earlier <:+ history) :
    AccountHistory P earlier := by
  induction history with
  | nil => rwa [List.suffix_nil.mp hearlier]
  | cons commit history ih =>
      rcases List.suffix_cons_iff.mp hearlier with rfl | hearlier
      · exact h
      · exact ih h.cases_cons.1 hearlier

/-- The tables of a history follow each other. -/
theorem AccountHistory.precedes (h : AccountHistory P history) (hearlier : earlier <:+ history) :
    (accountsAt earlier).Precedes (accountsAt history) := by
  induction h with
  | nil =>
      rw [List.suffix_nil.mp hearlier]
      exact .refl _
  | created _ _ _ hinsert ih =>
      rcases List.suffix_cons_iff.mp hearlier with rfl | hearlier
      · exact .refl _
      · exact (ih hearlier).trans (.of_insert hinsert)
  | updated _ _ _ hflush _ ih =>
      rcases List.suffix_cons_iff.mp hearlier with rfl | hearlier
      · exact .refl _
      · exact (ih hearlier).trans (.of_flush hflush)

/-- A stored account is as it was, or has taken the step of the commit. -/
theorem AccountHistory.kept_or_stepped (h : AccountHistory P (commit :: history)) {id : Long}
    {account : Account} (hstored : (accountsAt history).find? id = some account) :
    commit.accounts.find? id = some account ∨
      ∃ changed, Account.Step P commit.operation account changed ∧
        commit.row = { changed with version := account.version + 1 } ∧
        commit.accounts.find? id = some commit.row := by
  obtain ⟨-, ⟨-, -, hfresh, hfound⟩ | ⟨before, changed, hbefore, hstep, hrow, hfound⟩⟩ :=
    h.cases_cons
  · left
    rw [hfound, if_neg]
    · exact hstored
    · rintro rfl
      rw [hfresh] at hstored
      exact absurd hstored (by simp)
  · rw [hfound]
    split
    · rename_i hid
      subst hid
      cases hbefore.symm.trans hstored
      exact .inr ⟨changed, hstep, hrow, rfl⟩
    · exact .inl hstored

theorem AccountHistory.continues_cons (h : AccountHistory P (commit :: history)) {id : Long}
    {a : Account} (hstored : (accountsAt history).find? id = some a) :
    ∃ b, commit.accounts.find? id = some b ∧ a.Continues b := by
  rcases h.kept_or_stepped hstored with hkept | ⟨changed, hstep, hrow, hfound⟩
  · exact ⟨a, hkept, .refl a⟩
  · refine ⟨commit.row, hfound, ?_⟩
    rw [hrow]
    exact ⟨hstep.continues.id, hstep.continues.loginId, hstep.continues.role,
      hstep.continues.passwordHash⟩

/-- An account that is stored at one moment is stored at every later one. -/
theorem AccountHistory.continues (h : AccountHistory P history) (hearlier : earlier <:+ history)
    {id : Long} {a : Account} (hstored : (accountsAt earlier).find? id = some a) :
    ∃ b, (accountsAt history).find? id = some b ∧ a.Continues b := by
  induction history with
  | nil =>
      rw [List.suffix_nil.mp hearlier] at hstored
      exact ⟨a, hstored, .refl a⟩
  | cons commit history ih =>
      rcases List.suffix_cons_iff.mp hearlier with rfl | hearlier
      · exact ⟨a, hstored, .refl a⟩
      · obtain ⟨b, hb, hcontinues⟩ := ih h.cases_cons.1 hearlier
        obtain ⟨c, hc, hnext⟩ := h.continues_cons hb
        exact ⟨c, hc, hcontinues.trans hnext⟩

/-! ## Login ids -/

/-- The row of a commit has a login id of its own. -/
theorem AccountHistory.loginId_ne (h : AccountHistory P (commit :: history))
    (ih : ∀ {id id' : Long} {a b : Account}, (accountsAt history).find? id = some a →
      (accountsAt history).find? id' = some b → a.loginId = b.loginId → a = b)
    {other : Account} {id : Long} (hother : (accountsAt history).find? id = some other)
    (hid : id ≠ commit.row.id) : other.loginId ≠ commit.row.loginId := by
  have hotherId : other.id = id := Table.key_of_find? hother
  obtain ⟨-, ⟨-, hadmits, -, -⟩ | ⟨before, changed, hbefore, hstep, hrow, -⟩⟩ := h.cases_cons
  · exact (hadmits other (Table.mem_of_find? hother) (hotherId ▸ hid)).1
  · intro hlogin
    have hbeforeLogin : commit.row.loginId = before.loginId := by
      rw [hrow]
      exact hstep.continues.loginId
    have hsame : other = before := ih hother hbefore (hlogin.trans hbeforeLogin)
    apply hid
    calc id
        = other.id := hotherId.symm
      _ = before.id := by rw [hsame]
      _ = changed.id := Table.key_of_find? hbefore
      _ = commit.row.id := by rw [hrow]

/-- What is stored after a commit is its row, or was stored before. -/
theorem AccountHistory.row_or_stored (h : AccountHistory P (commit :: history)) {id : Long}
    {account : Account} (hstored : commit.accounts.find? id = some account) :
    account = commit.row ∧ id = commit.row.id ∨
      (accountsAt history).find? id = some account ∧ id ≠ commit.row.id := by
  have hfound : ∀ id, commit.accounts.find? id =
      if id = commit.row.id then some commit.row else (accountsAt history).find? id := by
    obtain ⟨-, ⟨-, -, -, hfound⟩ | ⟨before, changed, -, -, hrow, hfound⟩⟩ := h.cases_cons
    · exact hfound
    · intro id
      rw [hfound, hrow]
  rw [hfound] at hstored
  split at hstored
  · rename_i hid
    exact .inl ⟨(Option.some.inj hstored).symm, hid⟩
  · rename_i hid
    exact .inr ⟨hstored, hid⟩

/-- Stored accounts have different login ids. -/
theorem AccountHistory.eq_of_loginId (h : AccountHistory P history) {id id' : Long}
    {a b : Account} (ha : (accountsAt history).find? id = some a)
    (hb : (accountsAt history).find? id' = some b) (hlogin : a.loginId = b.loginId) : a = b := by
  induction history generalizing id id' a b with
  | nil => exact absurd ha (by simp [accountsAt])
  | cons commit history ih =>
      have ih' : ∀ {id id' : Long} {a b : Account}, (accountsAt history).find? id = some a →
          (accountsAt history).find? id' = some b → a.loginId = b.loginId → a = b :=
        fun ha hb hlogin => ih h.cases_cons.1 ha hb hlogin
      rcases h.row_or_stored ha with ⟨rfl, -⟩ | ⟨haBefore, hid⟩
      · rcases h.row_or_stored hb with ⟨rfl, -⟩ | ⟨hbBefore, hid'⟩
        · rfl
        · exact absurd hlogin.symm (h.loginId_ne ih' hbBefore hid')
      · rcases h.row_or_stored hb with ⟨rfl, -⟩ | ⟨hbBefore, -⟩
        · exact absurd hlogin (h.loginId_ne ih' haBefore hid)
        · exact ih' haBefore hbBefore hlogin

/-- The account of a login id. -/
theorem AccountHistory.findByLoginId (h : AccountHistory P history) {id : Long} {account : Account}
    (hstored : (accountsAt history).find? id = some account) :
    EmployeeRepository.findByLoginId (accountsAt history) account.loginId = some account := by
  cases hfound : EmployeeRepository.findByLoginId (accountsAt history) account.loginId with
  | none =>
      have hnone := List.find?_eq_none.mp hfound account (Table.mem_of_find? hstored)
      simp at hnone
  | some other =>
      have hmem := Table.find?_of_mem (List.mem_of_find?_eq_some hfound)
      have hlogin : other.loginId = account.loginId := by simpa using List.find?_some hfound
      rw [h.eq_of_loginId hmem hstored hlogin]

/-! ## Session versions -/

/-- The commit deactivates the account. -/
def AccountCommit.Deactivates (commit : AccountCommit ι) (history : List (AccountCommit ι))
    (id : Long) : Prop :=
  ∃ before after, (accountsAt history).find? id = some before ∧
    commit.accounts.find? id = some after ∧ before.active = true ∧ after.active = false

/-- The account was deactivated between two moments of a history. -/
def DeactivatedSince (id : Long) (earlier history : List (AccountCommit ι)) : Prop :=
  ∃ commit before, commit :: before <:+ history ∧ earlier <:+ before ∧
    commit.Deactivates before id

theorem not_deactivatedSince_self {id : Long} : ¬ DeactivatedSince id history history := by
  rintro ⟨commit, before, hupto, hearlier, -⟩
  have hle := hupto.length_le
  have hle' := hearlier.length_le
  rw [List.length_cons] at hle
  omega

theorem deactivatedSince_cons {id : Long} (hearlier : earlier <:+ history) :
    DeactivatedSince id earlier (commit :: history) ↔
      DeactivatedSince id earlier history ∨ commit.Deactivates history id := by
  constructor
  · rintro ⟨commit', before, hupto, hafter, hdeactivates⟩
    rcases List.suffix_cons_iff.mp hupto with heq | hupto
    · obtain ⟨rfl, rfl⟩ := List.cons.inj heq
      exact .inr hdeactivates
    · exact .inl ⟨commit', before, hupto, hafter, hdeactivates⟩
  · rintro (⟨commit', before, hupto, hafter, hdeactivates⟩ | hdeactivates)
    · exact ⟨commit', before, hupto.trans (List.suffix_cons ..), hafter, hdeactivates⟩
    · exact ⟨commit, history, List.suffix_rfl, hearlier, hdeactivates⟩

/-- One commit revokes the sessions of an account exactly when it deactivates it. -/
theorem AccountHistory.revokes_cons (h : AccountHistory P (commit :: history)) {id : Long}
    {a b : Account} (ha : (accountsAt history).find? id = some a)
    (hb : commit.accounts.find? id = some b) :
    commit.Deactivates history id ∧ a.sessionVersion < b.sessionVersion ∨
      ¬ commit.Deactivates history id ∧ b.sessionVersion = a.sessionVersion ∧
        (a.active = true → b.active = true) := by
  have hdeactivates : commit.Deactivates history id ↔ a.active = true ∧ b.active = false := by
    constructor
    · rintro ⟨before, after, hbefore, hafter, hactive, hinactive⟩
      cases hbefore.symm.trans ha
      cases hafter.symm.trans hb
      exact ⟨hactive, hinactive⟩
    · exact fun hactive => ⟨a, b, ha, hb, hactive.1, hactive.2⟩
  rw [hdeactivates]
  rcases h.kept_or_stepped ha with hkept | ⟨changed, hstep, hrow, hfound⟩
  · cases hkept.symm.trans hb
    exact .inr ⟨by simp, rfl, fun hactive => hactive⟩
  · cases hfound.symm.trans hb
    rw [hrow]
    rcases hstep.revokes_or_keeps with ⟨hactive, hinactive, hversion⟩ | ⟨hkeeps, hversion⟩
    · exact .inl ⟨⟨hactive, hinactive⟩, by simp [hversion]⟩
    · refine .inr ⟨fun hboth => ?_, hversion, hkeeps⟩
      have hstill := hkeeps hboth.1
      exact absurd (hstill.symm.trans hboth.2) (by simp)

/-- The session version of a stored account has grown exactly when the account
was deactivated in between; else an active account is still active. -/
theorem AccountHistory.revoked_or_kept (h : AccountHistory P history)
    (hearlier : earlier <:+ history) {id : Long} {a b : Account}
    (ha : (accountsAt earlier).find? id = some a) (hb : (accountsAt history).find? id = some b) :
    DeactivatedSince id earlier history ∧ a.sessionVersion < b.sessionVersion ∨
      ¬ DeactivatedSince id earlier history ∧ b.sessionVersion = a.sessionVersion ∧
        (a.active = true → b.active = true) := by
  induction history generalizing b with
  | nil =>
      cases List.suffix_nil.mp hearlier
      cases ha.symm.trans hb
      exact .inr ⟨not_deactivatedSince_self, rfl, fun hactive => hactive⟩
  | cons commit history ih =>
      rcases List.suffix_cons_iff.mp hearlier with rfl | hearlier
      · cases ha.symm.trans hb
        exact .inr ⟨not_deactivatedSince_self, rfl, fun hactive => hactive⟩
      · obtain ⟨c, hc, -⟩ := h.cases_cons.1.continues hearlier ha
        rw [deactivatedSince_cons hearlier]
        rcases h.revokes_cons hc hb with ⟨hdeactivates, hlt⟩ | ⟨hnot, hversion, hactive⟩
        · refine .inl ⟨.inr hdeactivates, ?_⟩
          rcases ih h.cases_cons.1 hearlier hc with ⟨-, hlt'⟩ | ⟨-, hsame, -⟩
          · exact hlt'.trans hlt
          · rwa [← hsame]
        · rcases ih h.cases_cons.1 hearlier hc with ⟨hsince, hlt⟩ | ⟨hnot', hsame, hactive'⟩
          · exact .inl ⟨.inl hsince, by rwa [hversion]⟩
          · exact .inr ⟨fun hor => hor.elim hnot' hnot, hversion.trans hsame,
              fun ha => hactive (hactive' ha)⟩

end ReceiptReview
