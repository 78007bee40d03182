import OperationHooks.Index.Table
import OperationHooks.Proofs.Path

set_option autoImplicit false

namespace OperationHooks.Index.Table

variable {t : Table} {directory other : Path} {s : State}

theorem put_eq (t : Table) (directory : Path) (s : State) : t.put directory s =
    if (t.get? directory).isSome then t.map fun x => (x.1,if x.1 = directory then s else x.2)
    else t ++ [(directory,s)] := by
  unfold put
  refine if_congr Iff.rfl (List.map_congr_left fun x _ => ?_) rfl
  obtain ⟨key,old⟩ := x
  dsimp only
  split <;> rfl

theorem get?_put (t : Table) (directory : Path) (s : State) (other : Path) :
    (t.put directory s).get? other = if other = directory then some s else t.get? other := by
  have hmap : ∀ t : Table, Table.get? (t.map fun x => (x.1,if x.1 = directory then s else x.2))
      other = if other = directory then (t.get? other).map fun _ => s else t.get? other := by
    intro t
    induction t with
    | nil => simp [get?]
    | cons x rest ih =>
      obtain ⟨key,old⟩ := x
      simp only [get?,List.map_cons,List.lookup_cons] at ih ⊢
      by_cases ho : other = key
      · subst ho
        by_cases hk : other = directory <;> simp [hk]
      · have hb : (other == key) = false := by simp [ho]
        simpa [hb] using ih
  rw [put_eq]
  split
  · rename_i hs
    rw [hmap]
    by_cases ho : other = directory
    · subst ho
      obtain ⟨old,ho⟩ := Option.isSome_iff_exists.1 hs
      simp [ho]
    · simp [ho]
  · rename_i hs
    rw [get?,List.lookup_append]
    by_cases ho : other = directory
    · subst ho
      rw [Option.not_isSome_iff_eq_none] at hs
      rw [show t.lookup other = none from hs]
      simp
    · have hb : (other == directory) = false := by simp [ho]
      simp [ho,hb,get?,List.lookup_cons]

theorem state_put (t : Table) (directory : Path) (s : State) (other : Path) :
    (t.put directory s).state other = if other = directory then s else t.state other := by
  unfold state; rw [get?_put]; split <;> rfl

theorem state_modify (t : Table) (directory : Path) (f : State → State) (other : Path) :
    (t.modify directory f).state other =
      if other = directory then f (t.state directory) else t.state other := state_put _ _ _ _

@[simp] theorem state_modify_self (t : Table) (directory : Path) (f : State → State) :
    (t.modify directory f).state directory = f (t.state directory) := by simp [state_modify]

theorem state_modify_of_ne (t : Table) (f : State → State) (h : other ≠ directory) :
    (t.modify directory f).state other = t.state other := by simp [state_modify,h]

/-- What leaves the entries of a state alone leaves those of all states alone. -/
theorem entries_modify (f : State → State)
    (hf : ∀ state, (f state).entries = state.entries) (t : Table)
    (directory other : Path) : ((t.modify directory f).state other).entries =
    (t.state other).entries := by
  rw [state_modify]
  split
  · rename_i he; rw [hf,he]
  · rfl

theorem dirty_modify (f : State → State) (hf : ∀ state, (f state).dirty = state.dirty) (t : Table)
    (directory other : Path) : ((t.modify directory f).state other).dirty =
    (t.state other).dirty := by
  rw [state_modify]
  split
  · rename_i he; rw [hf,he]
  · rfl

@[simp] theorem state_enter (t : Table) (directory other : Path) :
    (t.enter directory).state other = t.state other := by
  unfold enter; rw [state_modify]; split <;> simp_all

theorem mem_directories : directory ∈ t.directories ↔ t.get? directory ≠ none := by
  rw [directories,Path.mem_sorted,get?,ne_eq,List.lookup_eq_none_iff]
  simp only [List.mem_map,bne_iff_ne,ne_eq,not_forall,not_not]
  constructor
  · rintro ⟨x,hx,rfl⟩; exact ⟨x,hx,rfl⟩
  · rintro ⟨x,hx,he⟩; exact ⟨x,hx,he.symm⟩

/-- Directories are listed in the order they came. -/
theorem map_fst_modify (t : Table) (directory : Path) (f : State → State) :
    (t.modify directory f).map Prod.fst =
      if directory ∈ t.map Prod.fst then t.map Prod.fst else t.map Prod.fst ++ [directory] := by
  have hlisted : (t.get? directory).isSome = true ↔ directory ∈ t.map Prod.fst := by
    rw [← Option.ne_none_iff_isSome,← mem_directories,directories,Path.mem_sorted]
  rw [modify,put_eq]
  by_cases h : directory ∈ t.map Prod.fst
  · rw [if_pos (hlisted.2 h),if_pos h,List.map_map]
    rfl
  · rw [if_neg (hlisted.not.2 h),if_neg h,List.map_append]
    rfl

theorem mem_directories_of_entries (h : (t.state directory).entries ≠ []) :
    directory ∈ t.directories := by
  rw [mem_directories]
  intro hn
  exact h (by simp [state,hn,State.empty])

theorem mem_directories_modify {f : State → State} :
    other ∈ (t.modify directory f).directories ↔ other = directory ∨ other ∈ t.directories := by
  rw [mem_directories,mem_directories,modify,get?_put]
  by_cases h : other = directory <;> simp [h]

structure Knows (directory : Path) (s : State) (t t' : Table) : Prop where
  self : t'.state directory = s
  others : ∀ other, other ≠ directory → t'.state other = t.state other
  listed : t'.map Prod.fst =
    if directory ∈ t.map Prod.fst then t.map Prod.fst else t.map Prod.fst ++ [directory]

theorem knows_modify (t : Table) (directory : Path) (f : State → State) :
    Knows directory (f (t.state directory)) t (t.modify directory f) :=
  ⟨t.state_modify_self directory f,fun _ ho => t.state_modify_of_ne f ho,
    t.map_fst_modify directory f⟩

theorem Knows.modify {t' : Table} (h : Knows directory s t t') (f : State → State) :
    Knows directory (f s) t (t'.modify directory f) := by
  have h' := knows_modify t' directory f
  refine ⟨h.self ▸ h'.self,fun other ho => (h'.others other ho).trans (h.others other ho),?_⟩
  have hmem : directory ∈ t'.map Prod.fst := by
    rw [h.listed]
    split
    · assumption
    · simp
  rw [h'.listed,if_pos hmem,h.listed]

theorem dirty_eq_false_of_all (h : (t.all fun x => !x.2.dirty) = true) (directory : Path) :
    (t.state directory).dirty = false := by
  cases hd : t.get? directory with
  | none => rw [state,hd]; rfl
  | some s =>
    obtain ⟨before,after,hsplit,-⟩ := List.lookup_eq_some_iff.1 hd
    have hs := List.all_eq_true.1 h (directory,s) (by rw [hsplit]; simp)
    rw [state,hd]
    simpa using hs

end OperationHooks.Index.Table
