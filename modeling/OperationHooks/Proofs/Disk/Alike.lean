import OperationHooks.Output
import OperationHooks.Proofs.Disk.Access
import OperationHooks.Proofs.Effect

set_option autoImplicit false

namespace OperationHooks.Disk
open Effect

abbrev Alike (d d' : Disk) : Prop := Changed Tree.Same d d'

theorem Alike.refl (d : Disk) : Alike d d := ⟨rfl,.refl _⟩

theorem Alike.trans {d d' d'' : Disk} (h : Alike d d') (h' : Alike d' d'') : Alike d d'' :=
  ⟨h'.1.trans h.1,h.2.trans h'.2⟩

section Asking

variable {d d' : Disk} {p : Path}

theorem entry_alike (h : Alike d d') (p : Path) : d'.entry? p = d.entry? p := by
  simp only [ entry?,walk_of_same h]

theorem isFile_alike (h : Alike d d') (p : Path) : d'.isFile p = d.isFile p := by
  rw [isFile,isFile,entry_alike h]

theorem isDirectory_alike (h : Alike d d') (p : Path) : d'.isDirectory p = d.isDirectory p := by
  rw [isDirectory,isDirectory,entry_alike h]

theorem read_alike (h : Alike d d') (p : Path) : d'.read p = d.read p := by
  simp only [read,walk_of_same h]

end Asking

section Saving

variable {t u : Tree} {d d' : Disk}

theorem Tree.same_put (h : t.Same u) (p : Place) (e : Entry) : (t.put p e).Same (u.put p e) := by
  intro q
  by_cases hp : p = []
  · subst hp
    by_cases hq : q = []
    · subst hq
      rfl
    · have hlookup : ∀ t : Tree, (t.put [] e).get? q = t.get? q := fun t => by
        have hne : (q == ([] : Place)) = false := by simpa using hq
        have hkeep := lookup_filter (fun r => r != []) t.entries q
        rw [get?_of_ne_nil hq,get?_of_ne_nil hq,put,List.lookup_cons,hne,hkeep]
        simp [hq]
      rw [hlookup,hlookup,h q]
  · rw [get?_put hp,get?_put hp,h q]

theorem putAt_alike (h : Alike d d') (p : Place) (e : Entry) : Alike (d.putAt p e) (d'.putAt p e) :=
  ⟨h.1,Tree.same_put h.2 p e⟩

theorem respects_makeDirectory (p : Path) : Respects Alike (makeDirectory p) := by
  intro d d' h
  rw [run_makeDirectory,run_makeDirectory,walk_of_same h]
  cases d.walk false p with
  | error fault => exact ⟨rfl,h⟩
  | ok found =>
    cases found with
    | missing c => exact ⟨rfl,putAt_alike h c .directory⟩
    | entry c e => exact ⟨rfl,h⟩

theorem respects_unlessDirectory (p : Path) (fault : PathFault) :
    Respects Alike (unlessDirectory p fault) := by
  unfold unlessDirectory
  cases fault with
  | nullCharacter => exact .lift (.error PathFault.nullCharacter)
  | system cause =>
    refine .reading (fun d d' h => by rw [isDirectory_alike h]) fun d => ?_
    refine .bind (.lift _) fun there => ?_
    split
    · exact .lift (.ok ())
    · exact .lift (.error _)

theorem respects_makeDirectoriesFrom (p : Path) (above : Nat) :
    Respects Alike (makeDirectoriesFrom p above) := by
  induction above generalizing p with
  | zero => exact .tryCatch (respects_makeDirectory p) (respects_unlessDirectory p)
  | succ above ih =>
    refine .tryCatch (respects_makeDirectory p) fun fault => ?_
    split
    · exact .bind (ih p.parent) fun _ =>
        .tryCatch (respects_makeDirectory p) (respects_unlessDirectory p)
    · exact respects_unlessDirectory p fault

theorem respects_write (p : Path) (bytes : List UInt8) : Respects Alike (write p bytes) := by
  intro d d' h
  unfold write
  simp only [run_bind,run_get,walk_of_same h]
  cases d.walk true p with
  | error fault => exact ⟨rfl,h⟩
  | ok found =>
    cases found with
    | missing c => exact ⟨rfl,putAt_alike h c _⟩
    | entry c e =>
      cases e with
      | file old executable => exact ⟨rfl,putAt_alike h c _⟩
      | directory => exact ⟨rfl,h⟩
      | link target => exact ⟨rfl,h⟩

theorem respects_save (p : Path) (text : String) : Respects Alike (save p text) :=
  .adapt _ (.bind (respects_makeDirectoriesFrom p.parent _) fun _ => respects_write p _)

end Saving

end OperationHooks.Disk
