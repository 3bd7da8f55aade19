import ReceiptReview.Model.Failure

/-!
# Employees and sessions

An employee account, the principal that a login stores in the session, and the
employee for whom a request is executed.
-/

namespace ReceiptReview

open Java Store

inductive EmployeeRole
  | employee
  | reviewer
  | admin
  deriving DecidableEq, Repr

/-- A row of `employees`. -/
structure Employee where
  id : Long
  version : ℕ
  sessionVersion : ℕ
  loginId : JString
  passwordHash : Option JString
  role : EmployeeRole
  active : Bool
  deriving DecidableEq, Repr

instance : Entity Employee where
  key := Employee.id
  version := Employee.version
  withVersion employee version := { employee with version }
  key_withVersion _ _ := rfl
  version_withVersion _ _ := rfl

@[simp] theorem Employee.key_eq (employee : Employee) : Entity.key employee = employee.id := rfl

/-- What the session remembers of the login. -/
structure EmployeePrincipal where
  employeeId : Long
  loginId : JString
  sessionVersion : ℕ
  deriving DecidableEq, Repr

def EmployeePrincipal.isValidFor (principal : EmployeePrincipal) (employee : Employee) : Bool :=
  principal.employeeId = employee.id && principal.sessionVersion = employee.sessionVersion &&
    employee.active && employee.passwordHash.isSome

/-- The authentication of a request, and the employee that the session filter
has validated and stored in the request, if the request passed the filter. -/
structure Session where
  principal : Option EmployeePrincipal
  requestEmployee : Option Employee
  deriving DecidableEq, Repr

namespace CurrentEmployeeService

def findByLoginId (employees : Table Employee) (loginId : JString) : Option Employee :=
  employees.rows.find? fun employee => employee.loginId == loginId

/-- The employee stored in the request, else the stored account of the login. -/
def loadEmployee (employees : Table Employee) (session : Session)
    (principal : EmployeePrincipal) : Option Employee :=
  match session.requestEmployee with
  | some employee => some employee
  | none => findByLoginId employees principal.loginId

def getCurrentEmployee (employees : Table Employee) (session : Session) :
    Except Failure Employee :=
  match session.principal with
  | none => .error (.insufficientAuthentication "로그인이 필요합니다.")
  | some principal =>
      match loadEmployee employees session principal with
      | none => .error (.insufficientAuthentication "로그인이 필요합니다.")
      | some employee =>
          if principal.isValidFor employee then .ok employee
          else .error (.insufficientAuthentication "로그인이 필요합니다.")

end CurrentEmployeeService

/-- The employee that the filter stored in the request is an account of the
table, as it was read then; no operation changes the role of an account. -/
def Session.Loaded (session : Session) (employees : Table Employee) : Prop :=
  ∀ employee ∈ session.requestEmployee,
    ∃ stored, employees.find? employee.id = some stored ∧ stored.role = employee.role

open CurrentEmployeeService

/-- Requests run for accounts of the table, with the role of the account. -/
theorem find?_of_getCurrentEmployee {employees : Table Employee} {session : Session}
    {employee : Employee} (hloaded : session.Loaded employees)
    (h : getCurrentEmployee employees session = .ok employee) :
    ∃ stored, employees.find? employee.id = some stored ∧ stored.role = employee.role := by
  unfold getCurrentEmployee at h
  split at h
  · exact absurd h (by simp)
  · rename_i principal _
    cases hload : loadEmployee employees session principal with
    | none => simp [hload] at h
    | some loaded =>
        have heq : loaded = employee := by
          simp only [hload] at h
          split at h
          · exact Except.ok.inj h
          · exact absurd h (by simp)
        subst heq
        unfold loadEmployee at hload
        split at hload
        · rename_i stored hstored
          cases hload
          exact hloaded _ hstored
        · exact ⟨loaded, Table.find?_of_mem (List.mem_of_find?_eq_some hload), rfl⟩

end ReceiptReview
