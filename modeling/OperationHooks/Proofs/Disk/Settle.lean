import OperationHooks.Proofs.Disk.Walk

set_option autoImplicit false

namespace OperationHooks.Disk

variable {t : Tree}

theorem settleNames_append (enter : Place → List String → Option Place) (here : Place)
    (names rest : List String) : settleNames t enter here (names ++ rest) =
      (settleNames t enter here names).bind fun inside => settleNames t enter inside rest := by
  have step : ∀ here name names, name ≠ "." → name ≠ ".." →
      (settleNames t enter (here ++ [name]) (names ++ rest) =
        (settleNames t enter (here ++ [name]) names).bind fun inside =>
          settleNames t enter inside rest) →
      (∀ here, settleNames t enter here (names ++ rest) =
        (settleNames t enter here names).bind fun inside => settleNames t enter inside rest) →
      settleNames t enter here (name :: (names ++ rest)) =
        (settleNames t enter here (name :: names)).bind fun inside =>
          settleNames t enter inside rest := by
    intro here name names hd hu ih hall
    rw [settleNames_step t here _ enter hd hu,settleNames_step t here _ enter hd hu]
    cases he : t.get? (here ++ [name]) with
    | none => exact ih
    | some e =>
      cases e with
      | file bytes executable => exact ih
      | directory => exact ih
      | link target =>
        simp only
        cases enter (if isRooted target then [] else here) (namesOf target) with
        | none => rfl
        | some inside => simpa using hall inside
  induction names generalizing here with
  | nil => rfl
  | cons name names ih =>
    by_cases hd : name = "."
    · subst hd; simpa using ih here
    by_cases hu : name = ".."
    · subst hu; simpa using ih here.dropLast
    exact step here name names hd hu (ih _) ih

theorem settleNames_mono {enter enter' : Place → List String → Option Place}
    (h : ∀ here names a, enter here names = some a → enter' here names = some a)
    (here : Place) (names : List String) {a : Place}
    (ha : settleNames t enter here names = some a) :
    settleNames t enter' here names = some a := by
  induction names generalizing here with
  | nil => exact ha
  | cons name rest ih =>
    by_cases hd : name = "."
    · subst hd; simpa using ih here (by simpa using ha)
    by_cases hu : name = ".."
    · subst hu; simpa using ih here.dropLast (by simpa using ha)
    rw [settleNames_step t here rest enter hd hu] at ha
    rw [settleNames_step t here rest enter' hd hu]
    cases he : t.get? (here ++ [name]) with
    | none => simp only [he] at ha ⊢; exact ih _ ha
    | some e =>
      cases e with
      | file bytes executable => simp only [he] at ha ⊢; exact ih _ ha
      | directory => simp only [he] at ha ⊢; exact ih _ ha
      | link target =>
        simp only [he] at ha ⊢
        obtain ⟨inside,hi,ha⟩ := Option.bind_eq_some_iff.1 ha
        exact Option.bind_eq_some_iff.2 ⟨inside,h _ _ _ hi,ih _ ha⟩

theorem settleFrom_succ (depth : Nat) (here : Place) (names : List String) {a : Place}
    (h : settleFrom t depth here names = some a) :
      settleFrom t (depth + 1) here names = some a := by
  induction depth generalizing here names a with
  | zero => exact settleNames_mono (fun _ _ _ h => by cases h) here names h
  | succ depth ih => exact settleNames_mono (fun here names _ h => ih here names h) here names h

theorem settleFrom_link {depth : Nat} {start inside a : Place} {names rest : List String}
    (hi : settleFrom t depth start names = some inside)
    (ha : settleFrom t (depth + 1) inside rest = some a) :
    settleFrom t (depth + 1) start (names ++ rest) = some a := by
  rw [settleFrom,settleNames_append]
  exact Option.bind_eq_some_iff.2 ⟨inside,settleFrom_succ depth start names hi,ha⟩

/-- Settling at some depth enters links at the depth below it, if there is one. -/
theorem settleFrom_eq (t : Tree) (depth : Nat) : ∃ enter, settleFrom t depth = settleNames t enter ∧
    ∀ start names inside, enter start names = some inside →
      ∃ below, depth = below + 1 ∧ settleFrom t below start names = some inside := by
  cases depth with
  | zero => exact ⟨fun _ _ => none,rfl,fun _ _ _ h => by cases h⟩
  | succ depth => exact ⟨settleFrom t depth,rfl,fun _ _ _ h => ⟨depth,rfl,h⟩⟩

theorem settled_of_walkNames {f : Place → List String → Except Errno Found} {found : Found}
    (hf : ∀ depth here names a, f here names = .ok found → settleFrom t depth here names = some a →
      a = found.place)
    (depth : Nat) (here : Place) (names : List String) {a : Place}
    (h : walkNames t f true here names = .ok found) (ha : settleFrom t depth here names = some a) :
    a = found.place := by
  obtain ⟨enter,hall,henter⟩ := settleFrom_eq t depth
  induction here, names using names_induction with
  | nil here =>
    rw [hall] at ha
    obtain rfl := Except.ok.inj h
    exact (Option.some.inj ha).symm
  | dot here rest ih => exact ih (by simpa using h) (by rw [hall] at ha ⊢; simpa using ha)
  | up here rest ih => exact ih (by simpa using h) (by rw [hall] at ha ⊢; simpa using ha)
  | long here name rest hd hu hl _ => simp [walkNames_long t true here rest f hd hu hl] at h
  | step here name rest hd hu hl ih =>
    have hs := ha
    rw [hall,settleNames_step t here rest enter hd hu] at hs
    rw [walkNames_step t true here rest f hd hu hl] at h
    cases he : t.get? (here ++ [name]) with
    | none =>
      simp only [he] at h hs
      split at h
      · rename_i hr
        obtain rfl := List.isEmpty_iff.1 hr
        obtain rfl := Except.ok.inj h
        exact (Option.some.inj hs).symm
      · cases h
    | some e =>
      cases e with
      | file bytes executable =>
        simp only [he] at h hs
        split at h
        · rename_i hr
          obtain rfl := List.isEmpty_iff.1 hr
          obtain rfl := Except.ok.inj h
          exact (Option.some.inj hs).symm
        · cases h
      | directory => simp only [he] at h hs; exact ih h (by rw [hall]; exact hs)
      | link target =>
        simp only [he,Bool.not_true,Bool.and_false,Bool.false_eq_true,if_false] at h hs
        obtain ⟨inside,hi,hs⟩ := Option.bind_eq_some_iff.1 hs
        obtain ⟨below,rfl,hi⟩ := henter _ _ _ hi
        exact hf _ _ _ _ h (settleFrom_link hi (by rw [hall]; exact hs))

theorem settled_of_walkFrom {found : Found} (links depth : Nat) (here : Place) (names : List String)
    {a : Place} (h : walkFrom t true links here names = .ok found)
    (ha : settleFrom t depth here names = some a) : a = found.place := by
  induction links generalizing depth here names a with
  | zero => exact settled_of_walkNames (fun _ _ _ _ h _ => by cases h) depth here names h ha
  | succ links ih =>
    exact settled_of_walkNames (fun depth here names a h ha => ih depth here names h ha) depth here
      names h ha

end OperationHooks.Disk
