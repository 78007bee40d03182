import OperationHooks.Output
import OperationHooks.Proofs.Disk.Overlay

set_option autoImplicit false

namespace OperationHooks
open Effect Disk

theorem run_about {α : Type} (path : Path) (action : Disk.Action α) (d : Disk) :
    run (DiskWork.about path action) d =
      ((run action d).1.mapError (Fault.ofAccess path),(run action d).2) := rfl

theorem save_spec {d : Disk} {p : Path} (hd : LinkFree d.tree) (hp : HasDirectory d p.parent)
    (text : String) :
    (CanWrite d p ∧ run (save p text) d =
        (.ok (),d.putAt (placeOf d p) (stored (d.tree.get? (placeOf d p)) (Text.encode text)))) ∨
      ¬ CanWrite d p ∧ ∃ fault, run (save p text) d = (.error fault,d) := by
  unfold save
  simp only [run_about,run_bind,makeDirectories_of_hasDirectory hd hp]
  rcases write_spec hd p (Text.encode text) with ⟨hw,hr⟩ | ⟨hw,fault,hr⟩ <;> rw [hr]
  · exact .inl ⟨hw,rfl⟩
  · exact .inr ⟨hw,_,rfl⟩

theorem save_overlaid {G : Place → Prop} {base d : Disk} {directory : Path} {name : String}
    (hl : LinkFree base.tree) (ho : Overlaid G base d) (hd : HasDirectory base directory)
    (hdot : name ≠ ".") (hup : name ≠ "..") (text : String) :
    (CanWrite base (childOf directory name) ∧ run (save (childOf directory name) text) d =
        (.ok (),d.putAt (placeOf base (childOf directory name))
          (stored (d.tree.get? (placeOf base (childOf directory name))) (Text.encode text)))) ∨
      ¬ CanWrite base (childOf directory name) ∧
        ∃ fault, run (save (childOf directory name) text) d = (.error fault,d) := by
  have hparent : HasDirectory d (childOf directory name).parent := by
    rw [parent_childOf]
    exact (hasDirectory_overlaid hl ho).2 hd
  have hs := save_spec (ho.linkFree hl) hparent text
  rw [canWrite_overlaid hl ho hd hdot hup,placeOf_eq ho.here] at hs
  exact hs

end OperationHooks
