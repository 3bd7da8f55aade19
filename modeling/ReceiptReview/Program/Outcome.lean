import Mathlib.Data.List.Forall2

/-!
# Successful outcomes

Inversion of computations in `Except`: what a successful sequence or a
successful loop says of its parts.
-/

namespace Outcome

variable {ε α β γ : Type}

/-- `optional.orElseThrow(() -> e)`. -/
def orElseThrow (value : Option α) (e : ε) : Except ε α :=
  match value with
  | some a => .ok a
  | none => .error e

@[simp] theorem orElseThrow_eq_ok {value : Option α} {e : ε} {a : α} :
    orElseThrow value e = .ok a ↔ value = some a := by
  cases value <;> simp [orElseThrow]

@[simp] theorem orElseThrow_eq_error {value : Option α} {e e' : ε} :
    orElseThrow value e = .error e' ↔ value = none ∧ e = e' := by
  cases value <;> simp [orElseThrow]

/-- `if (condition) throw e;`. -/
def throwIf (condition : Prop) [Decidable condition] (e : ε) : Except ε Unit :=
  if condition then .error e else .ok ()

@[simp] theorem throwIf_eq_ok {condition : Prop} [Decidable condition] {e : ε} {u : Unit} :
    throwIf condition e = .ok u ↔ ¬ condition := by
  unfold throwIf
  split <;> simp [*]

theorem throwIf_eq_error {condition : Prop} [Decidable condition] {e e' : ε} :
    throwIf condition e = .error e' ↔ condition ∧ e = e' := by
  unfold throwIf
  split <;> simp [*]

@[simp] theorem pure_eq_ok {a b : α} : (pure a : Except ε α) = .ok b ↔ a = b := by
  simp [pure, Except.pure]

theorem bind_eq_ok {x : Except ε α} {f : α → Except ε β} {b : β} :
    (x >>= f) = .ok b ↔ ∃ a, x = .ok a ∧ f a = .ok b := by
  cases x with
  | error e => simp [bind, Except.bind]
  | ok a => simp [bind, Except.bind]

theorem bind_eq_error {x : Except ε α} {f : α → Except ε β} {e : ε} :
    (x >>= f) = .error e ↔ x = .error e ∨ ∃ a, x = .ok a ∧ f a = .error e := by
  cases x with
  | error e => simp [bind, Except.bind]
  | ok a => simp [bind, Except.bind]

theorem pure_ne_error {a : α} {e : ε} : (pure a : Except ε α) ≠ .error e := by
  simp [pure, Except.pure]

theorem map_eq_ok {x : Except ε α} {f : α → β} {b : β} :
    x.map f = .ok b ↔ ∃ a, x = .ok a ∧ f a = b := by
  cases x <;> simp [Except.map]

/-- A loop that succeeds has succeeded on every element. -/
theorem forall₂_of_mapM_eq_ok {f : α → Except ε β} :
    ∀ {as : List α} {bs : List β}, as.mapM f = .ok bs → List.Forall₂ (fun a b => f a = .ok b) as bs
  | [], bs, h => by
      cases h
      exact .nil
  | a :: as, bs, h => by
      rw [List.mapM_cons, bind_eq_ok] at h
      obtain ⟨b, hb, h⟩ := h
      rw [bind_eq_ok] at h
      obtain ⟨rest, hrest, h⟩ := h
      cases h
      exact .cons hb (forall₂_of_mapM_eq_ok hrest)

/-- A loop succeeds when every element does. -/
theorem exists_mapM_eq_ok {f : α → Except ε β} :
    ∀ {as : List α}, (∀ a ∈ as, ∃ b, f a = .ok b) → ∃ bs, as.mapM f = .ok bs
  | [], _ => ⟨[], rfl⟩
  | a :: as, h => by
      obtain ⟨b, hb⟩ := h a (by simp)
      obtain ⟨bs, hbs⟩ : ∃ bs, as.mapM f = .ok bs :=
        exists_mapM_eq_ok fun other hother => h other (by simp [hother])
      refine ⟨b :: bs, ?_⟩
      rw [List.mapM_cons, bind_eq_ok]
      refine ⟨b, hb, ?_⟩
      rw [bind_eq_ok]
      exact ⟨bs, hbs, rfl⟩

/-- A loop over images gives back the elements. -/
theorem mapM_map_eq_ok {f : α → β} {g : β → Except ε γ} {k : α → γ} :
    ∀ {as : List α}, (∀ a ∈ as, g (f a) = .ok (k a)) → (as.map f).mapM g = .ok (as.map k)
  | [], _ => rfl
  | a :: as, h => by
      have hrest : (as.map f).mapM g = .ok (as.map k) :=
        mapM_map_eq_ok fun other hother => h other (by simp [hother])
      rw [List.map_cons, List.mapM_cons, bind_eq_ok]
      refine ⟨k a, h a (by simp), ?_⟩
      rw [bind_eq_ok]
      exact ⟨as.map k, hrest, rfl⟩

theorem exists_of_forall₂_left {R : α → β → Prop} {as : List α} {bs : List β}
    (h : List.Forall₂ R as bs) {a : α} (ha : a ∈ as) : ∃ b ∈ bs, R a b := by
  induction h with
  | nil => exact absurd ha (by simp)
  | cons hab _ ih =>
      rcases List.mem_cons.mp ha with rfl | ha
      · exact ⟨_, by simp, hab⟩
      · obtain ⟨b, hb, hrest⟩ := ih ha
        exact ⟨b, by simp [hb], hrest⟩

theorem exists_of_forall₂_right {R : α → β → Prop} {as : List α} {bs : List β}
    (h : List.Forall₂ R as bs) {b : β} (hb : b ∈ bs) : ∃ a ∈ as, R a b :=
  exists_of_forall₂_left h.flip hb

theorem map_eq_of_forall₂ {γ : Type} {R : α → β → Prop} {f : α → γ} {g : β → γ} {as : List α}
    {bs : List β} (h : List.Forall₂ R as bs) (hfg : ∀ a b, R a b → f a = g b) :
    as.map f = bs.map g := by
  induction h with
  | nil => rfl
  | cons hab _ ih => simp [hfg _ _ hab, ih]

end Outcome
