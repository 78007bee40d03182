import OperationHooks.Proofs.Output

set_option autoImplicit false

namespace OperationHooks
open Effect

namespace Disk

variable {p : Path} {d : Disk} {followLast : Bool}

theorem hasNull_iff {s : String} : hasNull s = true ↔ '\x00' ∈ s.toList := by simp [hasNull]

theorem mem_intercalate {c : Char} {separator : String} (hc : c ∉ separator.toList)
    {parts : List String} :
    c ∈ (separator.intercalate parts).toList ↔ ∃ part ∈ parts, c ∈ part.toList := by
  rw [String.toList_intercalate]
  induction parts with
  | nil => simp
  | cons part rest ih =>
    cases rest with
    | nil => simp
    | cons second rest =>
      rw [List.map_cons,List.map_cons,List.intercalate_cons_cons,List.mem_append,List.mem_append,
        ← List.map_cons,ih]
      simp [hc]

theorem hasNull_text : hasNull p.text = true ↔ ∃ part ∈ p.parts, hasNull part = true := by
  have hanchor : ∀ a : Anchor, '\x00' ∉ a.text.toList := by intro a; cases a <;> decide
  simp only [hasNull_iff,Path.text]
  split
  · rename_i h
    have hnil : p.parts = [] := by simpa using (Bool.and_eq_true_iff.1 h).2
    simp [hnil]
  · rw [String.toList_append,List.mem_append,mem_intercalate (by decide)]
    simp [hanchor]

theorem hasNull_of_parent (h : hasNull p.parent.text = true) : hasNull p.text = true := by
  obtain ⟨part,hm,hn⟩ := hasNull_text.1 h
  exact hasNull_text.2 ⟨part,List.dropLast_subset _ hm,hn⟩

theorem hasNull_of_walk (h : d.walk followLast p = .error .nullCharacter) :
    hasNull p.text = true := by
  unfold walk at h
  dsimp only at h
  split at h
  · assumption
  · split at h
    · cases h
    · cases hw : walkFrom d.tree followLast maxLinks (d.startOf p) p.parts <;>
        rw [hw] at h <;> cases h

theorem entry?_ne_null : d.entry? p ≠ .error .nullCharacter := by
  unfold entry?
  split
  · simp
  · simp
  · rename_i fault _
    split
    · simp
    · rename_i hm
      rintro h
      obtain rfl := Except.error.inj h
      exact hm rfl

def NullIn {α : Type} (p : Path) (action : Action α) : Prop :=
  ∀ d d', run action d = (.error .nullCharacter,d') → hasNull p.text = true

namespace NullIn

theorem makeDirectory (p : Path) : NullIn p (Disk.makeDirectory p) := by
  intro d d' h
  rw [run_makeDirectory] at h
  cases hw : d.walk false p with
  | error fault =>
    rw [hw] at h
    obtain rfl := Except.error.inj (Prod.mk.inj h).1
    exact hasNull_of_walk hw
  | ok found => rw [hw] at h; cases found <;> cases h

theorem unlessDirectory {fault : PathFault} {d d' : Disk}
    (h : run (Disk.unlessDirectory p fault) d = (.error .nullCharacter,d')) :
      fault = .nullCharacter := by
  unfold Disk.unlessDirectory at h
  cases fault with
  | nullCharacter => rfl
  | system cause =>
    simp only [run_bind,run_get,run_lift] at h
    cases hi : d.isDirectory p with
    | error e =>
      rw [hi] at h
      obtain rfl := Except.error.inj (Prod.mk.inj h).1
      unfold isDirectory at hi
      cases he : d.entry? p with
      | error e' =>
        rw [he] at hi
        obtain rfl := Except.error.inj hi
        exact absurd he entry?_ne_null
      | ok e' => rw [he] at hi; cases hi
    | ok there => rw [hi] at h; cases there <;> cases h

theorem makeDirectoriesFrom (p : Path) (above : Nat) :
    NullIn p (Disk.makeDirectoriesFrom p above) := by
  have last : ∀ q, NullIn q (tryCatch (Disk.makeDirectory q) (Disk.unlessDirectory q)) := by
    intro q d d' h
    rw [run_tryCatch] at h
    cases hm : run (Disk.makeDirectory q) d with
    | mk r d₁ =>
      rw [hm] at h
      cases r with
      | ok u => cases h
      | error fault => exact makeDirectory q d d₁ (unlessDirectory h ▸ hm)
  induction above generalizing p with
  | zero => exact last p
  | succ above ih =>
    intro d d' h
    rw [Disk.makeDirectoriesFrom,run_tryCatch] at h
    cases hm : run (Disk.makeDirectory p) d with
    | mk r d₁ =>
      rw [hm] at h
      cases r with
      | ok u => cases h
      | error fault =>
        dsimp only at h
        split at h
        · rcases bind_eq_error.1 h with h | ⟨u,d₂,-,h⟩
          · exact hasNull_of_parent (ih p.parent _ _ h)
          · exact last p _ _ h
        · exact makeDirectory p d d₁ (unlessDirectory h ▸ hm)

theorem makeDirectories (p : Path) : NullIn p (Disk.makeDirectories p) := makeDirectoriesFrom p _

theorem write (p : Path) (bytes : List UInt8) : NullIn p (Disk.write p bytes) := by
  intro d d' h
  unfold Disk.write at h
  simp only [run_bind,run_get] at h
  cases hw : d.walk true p with
  | error fault =>
    rw [hw] at h
    obtain rfl := Except.error.inj (Prod.mk.inj h).1
    exact hasNull_of_walk hw
  | ok found => 
    rw [hw] at h
    cases found with
    | missing c => cases h
    | entry c e => cases e <;> cases h

theorem removeDirectory (p : Path) : NullIn p (Disk.removeDirectory p) := by
  intro d d' h
  unfold Disk.removeDirectory at h
  by_cases hp : p.parts.isEmpty = true
  · rw [if_pos hp] at h
    cases h
  · rw [if_neg hp] at h
    simp only [run_bind,run_get] at h
    cases hw : d.walk false p with
    | error fault =>
      rw [hw] at h
      obtain rfl := Except.error.inj (Prod.mk.inj h).1
      exact hasNull_of_walk hw
    | ok found =>
      rw [hw] at h
      cases found with
      | missing c => cases h
      | entry c e =>
        cases e with
        | directory =>
          dsimp only at h
          split at h <;> cases h
        | _ => cases h

theorem removeTree (p : Path) : NullIn p (Disk.removeTree p) := by
  intro d d' h
  unfold Disk.removeTree at h
  simp only [run_bind,run_get] at h
  cases hw : d.walk false p with
  | error fault =>
    rw [hw] at h
    obtain rfl := Except.error.inj (Prod.mk.inj h).1
    exact hasNull_of_walk hw
  | ok found =>
    rw [hw] at h
    cases found with
    | missing c => cases h
    | entry c e =>
      cases e with
      | file bytes executable => cases h
      | directory => exact removeDirectory p _ _ h
      | link target =>
        dsimp only at h
        cases hw' : d.walk true p with
        | error fault =>
          rw [hw'] at h
          obtain rfl := Except.error.inj (Prod.mk.inj h).1
          exact hasNull_of_walk hw'
        | ok found' => rw [hw'] at h; cases found' <;> cases h

end NullIn

end Disk

open Disk

variable {α : Type} {p : Path}

/-- A refused action is a fault of the file, or there is a null character in its path. -/
theorem fault_of_about {path : Path} {action : Action α} {fault : Fault} {d d' : Disk}
    (hn : NullIn p action) (h : run (DiskWork.about path action) d = (.error fault,d')) :
    (∃ cause, fault = .fileAccess path cause) ∨ fault = .nullCharacter ∧ hasNull p.text = true := by
  rw [run_about] at h
  cases hr : run action d with
  | mk r d₁ =>
    rw [hr] at h
    cases r with
    | ok a => cases h
    | error cause =>
      obtain rfl := Except.error.inj (Prod.mk.inj h).1
      cases cause with
      | nullCharacter => exact .inr ⟨rfl,hn _ _ hr⟩
      | system cause => exact .inl ⟨cause,rfl⟩

theorem nullIn_save (p : Path) (text : String) : NullIn p (do
    Disk.makeDirectories p.parent
    Disk.write p (Text.encode text)) := fun d d' h => by
  rcases bind_eq_error.1 h with h | ⟨u,d₁,-,h⟩
  · exact hasNull_of_parent (NullIn.makeDirectories p.parent _ _ h)
  · exact NullIn.write p _ _ _ h

end OperationHooks
