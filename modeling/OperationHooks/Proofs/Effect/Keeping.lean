import OperationHooks.Proofs.Effect

set_option autoImplicit false

namespace OperationHooks.Effect

variable {ε σ α β : Type}

def Keeps (I : σ → Prop) (fails : ε → Prop) (x : StateT σ (Except ε) α) (post : α → Prop) : Prop :=
  ∀ s, I s →
    match x.run s with
    | .ok (a,s') => post a ∧ I s'
    | .error e => fails e

/-- Work that goes on behind work whose result is known. -/
theorem run_bind_of_ok {x : StateT σ (Except ε) α} {f : α → StateT σ (Except ε) β}
    {a : α} {s s' : σ}
    (h : x.run s = .ok (a,s')) : (x >>= f).run s = (f a).run s' := by
  rw [StateT.run_bind,h]
  rfl

theorem run_get_bind (f : σ → StateT σ (Except ε) β) (s : σ) :
    ((get : StateT σ (Except ε) σ) >>= f).run s = (f s).run s := rfl

theorem run_discard_of_ok {x : StateT σ (Except ε) α} {a : α} {s s' : σ}
    (h : x.run s = .ok (a,s')) :
    (discard x).run s = .ok ((),s') := by
  have hbind : (x >>= fun _ => pure ()).run s = .ok ((),s') := run_bind_of_ok h
  exact hbind

namespace Keeps

variable {I : σ → Prop} {fails : ε → Prop} {post post' : α → Prop} {x : StateT σ (Except ε) α}

theorem mono (h : Keeps I fails x post) (hpost : ∀ a, post a → post' a) :
    Keeps I fails x post' := by
  intro s hs
  have hx := h s hs
  cases hrun : x.run s with
  | ok found => rw [hrun] at hx; exact ⟨hpost _ hx.1,hx.2⟩
  | error e => rw [hrun] at hx; exact hx

theorem pure {a : α} (h : post a) : Keeps I fails (pure a : StateT σ (Except ε) α) post :=
  fun _ hs => ⟨h,hs⟩

theorem bind {f : α → StateT σ (Except ε) β} {post' : β → Prop} (hx : Keeps I fails x post)
    (hf : ∀ a, post a → Keeps I fails (f a) post') : Keeps I fails (x >>= f) post' := by
  intro s hs
  have hrun := hx s hs
  rw [StateT.run_bind]
  cases hr : x.run s with
  | error e => rw [hr] at hrun; exact hrun
  | ok found => rw [hr] at hrun; exact hf _ hrun.1 _ hrun.2

theorem get : Keeps I fails (get : StateT σ (Except ε) σ) I := fun _ hs => ⟨hs,hs⟩

theorem modify {f : σ → σ} (h : ∀ s, I s → I (f s)) :
    Keeps I fails (modify f : StateT σ (Except ε) PUnit) fun _ => True :=
      fun s hs => ⟨trivial,h s hs⟩

theorem throw {e : ε} (h : fails e) :
    Keeps I fails (throw e : StateT σ (Except ε) α) post := fun _ _ => h

theorem lift {r : Except ε α} (hok : ∀ a, r = .ok a → post a)
    (herror : ∀ e, r = .error e → fails e) :
    Keeps I fails (liftM r : StateT σ (Except ε) α) post := by
  intro s hs
  cases r with
  | ok a => exact ⟨hok a rfl,hs⟩
  | error e => exact herror e rfl

theorem discard (h : Keeps I fails x post) : Keeps I fails (discard x) fun _ => True :=
  h.bind fun _ _ => .pure trivial

theorem forM {f : β → StateT σ (Except ε) PUnit}
    (h : ∀ y, Keeps I fails (f y) fun _ => True) (ys : List β) :
    Keeps I fails (ys.forM f) fun _ => True := by
  induction ys with
  | nil => exact .pure trivial
  | cons y rest ih => exact (h y).bind fun _ _ => ih

theorem mapM {f : β → StateT σ (Except ε) α}
    (h : ∀ y, Keeps I fails (f y) fun _ => True) (ys : List β) :
    Keeps I fails (ys.mapM f) fun _ => True := by
  induction ys with
  | nil => exact .pure trivial
  | cons y rest ih =>
    rw [List.mapM_cons]
    exact (h y).bind fun _ _ => ih.bind fun _ _ => .pure trivial

theorem findM? {f : β → StateT σ (Except ε) Bool} {post : β → Prop}
    (h : ∀ y, Keeps I fails (f y) fun b => b = true → post y) (ys : List β) :
    Keeps I fails (ys.findM? f) fun found => ∀ y, found = some y → post y := by
  induction ys with
  | nil => exact .pure nofun
  | cons y rest ih =>
    refine (h y).bind fun b hb => ?_
    cases b with
    | true => exact .pure fun y' hy' => Option.some.inj hy' ▸ hb rfl
    | false => exact ih

end Keeps

end OperationHooks.Effect
