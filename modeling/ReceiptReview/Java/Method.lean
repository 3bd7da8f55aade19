import Mathlib.Logic.Basic

/-!
# Methods of mutable objects

A method runs its statements on the object that it belongs to.  What it has
assigned before it throws an exception stays assigned, so that a method is
atomic only if it makes all its tests before its first assignment.
-/

namespace Java

/-- A method: the assignments of the statements survive an exception. -/
abbrev Method (ε σ α : Type) := ExceptT ε (StateM σ) α

namespace Method

variable {ε σ α β : Type}

/-- What a call on an object returns or throws, and the object after it. -/
def call (method : Method ε σ α) (object : σ) : Except ε α × σ :=
  StateT.run (ExceptT.run method) object

/-- The object as the next statement finds it. -/
def this : Method ε σ σ := get

/-- `if (condition) throw e;`. -/
def throwIf (condition : σ → Prop) [DecidablePred condition] (e : σ → ε) : Method ε σ Unit := do
  let object ← this
  if condition object then throw (e object)

/-- One assignment. -/
def assign (assignment : σ → σ) : Method ε σ Unit := modify assignment

@[simp] theorem call_pure (a : α) (object : σ) :
    call (pure a : Method ε σ α) object = (.ok a, object) := rfl

@[simp] theorem call_throw (e : ε) (object : σ) :
    call (throw e : Method ε σ α) object = (.error e, object) := rfl

@[simp] theorem call_this (object : σ) :
    call (this : Method ε σ σ) object = (.ok object, object) := rfl

@[simp] theorem call_assign (assignment : σ → σ) (object : σ) :
    call (assign assignment : Method ε σ Unit) object = (.ok (), assignment object) := rfl

theorem call_bind (method : Method ε σ α) (rest : α → Method ε σ β) (object : σ) :
    call (method >>= rest) object = match call method object with
      | (.ok a, next) => call (rest a) next
      | (.error e, next) => (.error e, next) := by
  simp only [call, ExceptT.run_bind, StateT.run_bind]
  rcases StateT.run (ExceptT.run method) object with ⟨_ | _, next⟩ <;> rfl

/-! ## Tests and assignments -/

/-- The method only tests the object. -/
def Tests (method : Method ε σ Unit) (test : σ → Except ε Unit) : Prop :=
  ∀ object, call method object = (test object, object)

/-- The method only assigns, and never throws. -/
def Assigns (method : Method ε σ Unit) (assignment : σ → σ) : Prop :=
  ∀ object, call method object = (.ok (), assignment object)

/-- The method computes the next state of the object, or throws and leaves the object as it is. -/
def Implements (method : Method ε σ Unit) (next : σ → Except ε σ) : Prop :=
  ∀ object, call method object = match next object with
    | .ok after => (.ok (), after)
    | .error e => (.error e, object)

variable {method method' : Method ε σ Unit} {assignment assignment' : σ → σ}
variable {test : σ → Except ε Unit} {next next' : σ → Except ε σ} {object : σ}

theorem assigns_assign : Assigns (assign assignment : Method ε σ Unit) assignment :=
  call_assign assignment

theorem Assigns.seq (h : Assigns method assignment) (h' : Assigns method' assignment') :
    Assigns (method >>= fun _ => method') (assignment' ∘ assignment) := by
  intro object
  rw [call_bind, h object]
  exact h' (assignment object)

theorem tests_throwIf {condition : σ → Prop} [DecidablePred condition] {e : σ → ε} :
    Tests (throwIf condition e)
      fun object => if condition object then .error (e object) else .ok () := by
  intro object
  rw [throwIf, call_bind, call_this]
  by_cases hcondition : condition object
  · simp [hcondition]
  · simp [hcondition]

theorem Assigns.implements (h : Assigns method assignment) :
    Implements method fun object => .ok (assignment object) := h

/-- A test before an atomic method gives an atomic method. -/
theorem Tests.implements (h : Tests method test) (h' : Implements method' next')
    (hnext : ∀ object, next object = test object >>= fun _ => next' object) :
    Implements (method >>= fun _ => method') next := by
  intro object
  rw [call_bind, h object, hnext object]
  cases htest : test object with
  | error e => rfl
  | ok u => exact h' object

theorem Implements.next_eq_ok (h : Implements method next) {u : Unit}
    (hreturned : (call method object).1 = .ok u) :
    next object = .ok (call method object).2 := by
  rw [h object] at hreturned ⊢
  cases hnext : next object with
  | error e => simp [hnext] at hreturned
  | ok after => rfl

theorem Implements.next_eq_error (h : Implements method next) {e : ε}
    (hthrown : (call method object).1 = .error e) : next object = .error e := by
  rw [h object] at hthrown
  cases hnext : next object with
  | error e' => simpa [hnext] using hthrown
  | ok after => simp [hnext] at hthrown

/-- An exception leaves the object of an atomic method as it was. -/
theorem Implements.unchanged (h : Implements method next) {e : ε}
    (hthrown : (call method object).1 = .error e) : (call method object).2 = object := by
  rw [h object, h.next_eq_error hthrown]

end Method

end Java
