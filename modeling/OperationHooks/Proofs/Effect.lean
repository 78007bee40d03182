set_option autoImplicit false

namespace OperationHooks.Effect

variable {ε ε' σ α β : Type} {s s' : σ} {e : ε}

theorem mapError_ok (f : ε → ε') (a : α) : (Except.ok a).mapError f = .ok a := rfl

theorem mapError_error (f : ε → ε') (e : ε) :
    (Except.error e : Except ε α).mapError f = .error (f e) := rfl

def run (x : ExceptT ε (StateM σ) α) (s : σ) : Except ε α × σ := ExceptT.run x s

@[simp] theorem run_pure (a : α) (s : σ) :
  run (pure a : ExceptT ε (StateM σ) α) s = (.ok a,s) := rfl

@[simp] theorem run_throw (e : ε) (s : σ) :
    run (throw e : ExceptT ε (StateM σ) α) s = (.error e,s) := rfl

@[simp] theorem run_get (s : σ) : run (get : ExceptT ε (StateM σ) σ) s = (.ok s,s) := rfl

@[simp] theorem run_set (s s' : σ) :
    run (set s' : ExceptT ε (StateM σ) PUnit) s = (.ok ⟨⟩,s') := rfl

@[simp] theorem run_modify (f : σ → σ) (s : σ) :
    run (modify f : ExceptT ε (StateM σ) PUnit) s = (.ok ⟨⟩,f s) := rfl

@[simp] theorem run_lift (r : Except ε α) (s : σ) :
    run (liftM r : ExceptT ε (StateM σ) α) s = (r,s) := by cases r <;> rfl

theorem run_bind (x : ExceptT ε (StateM σ) α) (f : α → ExceptT ε (StateM σ) β) (s : σ) :
    run (x >>= f) s =
      match run x s with
      | (.ok a,s₁) => run (f a) s₁
      | (.error e,s₁) => (.error e,s₁) := by
  show (ExceptT.bindCont f (x s).1 (x s).2 : Except ε β × σ) = _
  unfold run ExceptT.run
  cases x s with
  | mk r s₁ => cases r <;> rfl

theorem run_tryCatch (x : ExceptT ε (StateM σ) α) (f : ε → ExceptT ε (StateM σ) α) (s : σ) :
    run (tryCatch x f) s =
      match run x s with
      | (.ok a,s₁) => (.ok a,s₁)
      | (.error e,s₁) => run (f e) s₁ := by
  show (match (x s).1 with
    | .ok a => pure (.ok a)
    | .error e => f e : StateM σ (Except ε α)) (x s).2 = _
  unfold run ExceptT.run
  cases x s with
  | mk r s₁ => cases r <;> rfl

@[simp] theorem run_adapt (f : ε → ε') (x : ExceptT ε (StateM σ) α) (s : σ) :
    run (ExceptT.adapt f x) s = ((run x s).1.mapError f,(run x s).2) := rfl

theorem bind_eq_ok {x : ExceptT ε (StateM σ) α} {f : α → ExceptT ε (StateM σ) β} {b : β} :
    run (x >>= f) s = (.ok b,s') ↔
      ∃ a s₁, run x s = (.ok a,s₁) ∧ run (f a) s₁ = (.ok b,s') := by
  rw [run_bind]
  cases h : run x s with
  | mk r s₁ => cases r <;> simp [and_assoc]

theorem bind_eq_error {x : ExceptT ε (StateM σ) α} {f : α → ExceptT ε (StateM σ) β} :
    run (x >>= f) s = (.error e,s') ↔ run x s = (.error e,s') ∨
      ∃ a s₁, run x s = (.ok a,s₁) ∧ run (f a) s₁ = (.error e,s') := by
  rw [run_bind]
  cases h : run x s with
  | mk r s₁ => cases r <;> simp [and_assoc]

def passes (r : Except ε α) (check : α → Bool) : Bool :=
  match r with
  | .ok a => check a
  | .error _ => false

theorem exists_of_passes {r : Except ε α} {check : α → Bool} (h : passes r check = true) :
    ∃ a, r = .ok a ∧ check a = true := by
  cases r with
  | ok a => exact ⟨a,rfl,h⟩
  | error e => cases h

/-- From related states work gives one result, and leaves related states. -/
def Respects (R : σ → σ → Prop) (x : ExceptT ε (StateM σ) α) : Prop :=
  ∀ s s', R s s' → (run x s').1 = (run x s).1 ∧ R (run x s).2 (run x s').2

namespace Respects

variable {R : σ → σ → Prop} {x : ExceptT ε (StateM σ) α}

theorem lift (r : Except ε α) : Respects R (liftM r : ExceptT ε (StateM σ) α) := fun s s' h => by
  rw [run_lift,run_lift]; exact ⟨rfl,h⟩

theorem modify {f : σ → σ} (hf : ∀ s s', R s s' → R (f s) (f s')) :
    Respects R (modify f : ExceptT ε (StateM σ) PUnit) := fun s s' h => ⟨rfl,hf s s' h⟩

theorem bind {f : α → ExceptT ε (StateM σ) β} (hx : Respects R x) (hf : ∀ a, Respects R (f a)) :
    Respects R (x >>= f) := by
  intro s s' h
  obtain ⟨hr,hs⟩ := hx s s' h
  rw [run_bind,run_bind]
  cases hrun : run x s with
  | mk r s₁ =>
    cases hrun' : run x s' with
    | mk r' s₁' =>
      rw [hrun,hrun'] at hr hs
      obtain rfl : r' = r := hr
      cases r' with
      | ok a => exact hf a s₁ s₁' hs
      | error e => exact ⟨rfl,hs⟩

theorem tryCatch {f : ε → ExceptT ε (StateM σ) α} (hx : Respects R x) (hf : ∀ e, Respects R (f e)) :
    Respects R (tryCatch x f) := by
  intro s s' h
  obtain ⟨hr,hs⟩ := hx s s' h
  rw [run_tryCatch,run_tryCatch]
  cases hrun : run x s with
  | mk r s₁ =>
    cases hrun' : run x s' with
    | mk r' s₁' =>
      rw [hrun,hrun'] at hr hs
      obtain rfl : r' = r := hr
      cases r' with
      | ok a => exact ⟨rfl,hs⟩
      | error e => exact hf e s₁ s₁' hs

theorem adapt (f : ε → ε') (hx : Respects R x) : Respects R (ExceptT.adapt f x) := fun s s' h =>
  ⟨congrArg (·.mapError f) (hx s s' h).1,(hx s s' h).2⟩

/-- Work that reads the state goes on alike if it reads the same from related states. -/
theorem reading {f : σ → ExceptT ε (StateM σ) α} (hsame : ∀ s s', R s s' → f s' = f s)
    (hf : ∀ s, Respects R (f s)) : Respects R (get >>= f) := fun s s' h => by
  rw [run_bind,run_bind,run_get,run_get]
  dsimp only
  rw [hsame s s' h]
  exact hf s s s' h

end Respects

end OperationHooks.Effect
